import ChainScript.Access.Attribute

/-!
# Handlers of resolvers

A resolver's own handler comes first. A record keeps its handlers under the reserved symbols, in
itself or in a parent, and only a record that has none there falls back on what its class offers. A
class is served by the class that it belongs to, and any other object by its attributes. A resolver
without a handler of its own is served by the registry, whose handlers take the resolver as an
argument before those of the access.
-/

namespace ChainScript

/-- A function that serves an access, and whether it is the resolver's own or comes from a registry.
-/
structure Handler where
  function : Value
  resolver : Option Value

namespace Handler

/-- The name of the place that the handler comes from. -/
def source (handler : Handler) : String :=
  if handler.resolver.isSome then "registry" else "self"

/-- Serves an access. -/
def run (handler : Handler) (call : Caller) (arguments : List Value) : Run Value :=
  call handler.function (handler.resolver.toList ++ arguments)

end Handler

namespace Resolver

/-- What a resolver offers as its own handler, and whether it is found under a reserved symbol. -/
def own (resolver : Value) (kind : AccessKind) : Run (Option Value × Bool) := do
  let h ← Run.heap
  match resolver, h.objectOf? resolver with
  | .object id, some (.record c ..) =>
    let k : Key := .object kind.symbol
    -- The nearest owner of the symbol decides, even if what it holds is null.
    match h.owner? k id with
    | some owner =>
      -- The symbol is put into words for a refusal, whether one follows or not.
      let _ ← Run.inspect (.object kind.symbol)
      return (h.ownValue? owner k, true)
    | none =>
      match (c.offer kind).given? resolver (.handler (.record c) kind) with
      | none => return (none, false)
      | some given => return (some (← given.toValue), false)
  | .type c, _ =>
    match (c.metaOffer kind).given? resolver (.metaHandler c kind) with
    | none => return (none, false)
    | some given => return (some (← given.toValue), false)
  | _, _ => return (← Attribute.get resolver kind.reservedName, false)

/-- The resolver's own handler, if it has one. What is there but cannot be called is a fault. -/
def selfAttached (resolver : Value) (kind : AccessKind) : Run (Option Value) := do
  match ← own resolver kind with
  | (none, _) | (some .null, _) => return none
  | (some f, bySymbol) =>
    if (← Run.heap).isCallable f then return some f
    else Run.fail (.handlerNotFunction resolver kind bySymbol)

/-- The handler that serves an access of a kind through a resolver. -/
def handler (resolver : Value) (kind : AccessKind) : Run Handler := do
  match ← selfAttached resolver kind with
  | some f => return ⟨f, none⟩
  | none =>
    let m ← get
    match (m.registry.lookup m.heap resolver).bind fun handlers => handlers.forKind kind with
    | some f => return ⟨f, some resolver⟩
    | none => Run.fail (.noHandler resolver kind)

end Resolver

end ChainScript
