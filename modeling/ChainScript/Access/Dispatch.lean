import ChainScript.Access.Handler
import ChainScript.Access.Ordinary

/-!
# Carrying references out

A reference is read, written or deleted along the route that its name fixes: a binding in an
environment, an ordinary slot of the base, or a handler of the resolver. Only here does strictness
matter: a strict reference turns a refused write or delete, and a write to an unbound identifier,
into a fault.
-/

namespace ChainScript

namespace Reference

/-- A reference to a property of a base. A primitive name denotes an ordinary slot, and any other
value a resolver. The receiver is the base unless another is given. -/
def property (base name : Value) (strict : Bool) (this : Value) (isSuper : Bool) :
    Run Reference := do
  if base.isNullish then Run.fail (.inaccessible name base)
  else
    let kind := if (← Run.heap).isPrimitive name then .ordinary name else .virtual name
    return ⟨base, kind, if this = .undefined then base else this, strict, true, isSuper⟩

/-- A reference to a binding that the given environment holds, or that is unresolvable if there is
none. -/
def ofBinding (owner name : Value) (strict : Bool) (this : Value) (isSuper : Bool) : Reference :=
  ⟨owner, .binding name, if this = .undefined then owner else this, strict, owner != .null, isSuper⟩

end Reference

namespace Environment

/-- The bindings of an environment. -/
def bindings? (h : Heap) (env : Value) : Option (ObjectId × Slots × Option ObjectId) :=
  match env, h.objectOf? env with
  | .object id, some (.environment bindings parent) => some (id, bindings, parent)
  | _, _ => none

/-- The nearest environment, from the given one outwards, that binds a name. -/
def owner (env name : Value) : Run (Option ObjectId) := do
  let h ← Run.heap
  match bindings? h env with
  | none => Run.failNative .attributeError
  | some (id, _, _) => return h.owner? (← Run.keyOf name) id

/-- The value that an environment itself binds a name to. -/
def lookup (env name : Value) : Run Value := do
  match bindings? (← Run.heap) env with
  | none => Run.failNative .attributeError
  | some (_, bindings, _) =>
    match Slots.value? bindings (← Run.keyOf name) with
    | some v => return v
    | none => Run.failNative .keyError

/-- Binds a name in an environment itself. -/
def assign (env name value : Value) : Run Unit := do
  match bindings? (← Run.heap) env with
  | none => Run.failNative .attributeError
  | some (id, bindings, parent) =>
    Run.put id (.environment (Slots.put bindings (← Run.keyOf name) name value) parent)

/-- Removes a binding from an environment itself. The answer is true whether there was one or not.
-/
def remove (env name : Value) : Run Bool := do
  match bindings? (← Run.heap) env with
  | none => Run.failNative .attributeError
  | some (id, bindings, parent) =>
    Run.put id (.environment (Table.erase bindings (← Run.keyOf name)) parent)
    return true

end Environment

namespace Dispatch

/-- The reference of `base :: resolver`. A primitive in the place of the resolver names an ordinary
slot. -/
def chain (base resolver : Value) (strict : Bool) : Run Reference := do
  let base ← Ordinary.toObject base
  let ref ← Reference.property base resolver strict .undefined false
  if !ref.isVirtual then
    let shown ← Run.inspect resolver
    Run.note (pure ["construct", "primitive resolver", shown, "-> ordinary"])
  return ref

/-- The reference of an identifier in an environment. -/
def binding (env name : Value) (strict : Bool) : Run Reference := do
  let owner ← Environment.owner env name
  return .ofBinding ((owner.map Value.object).getD .null) name strict .undefined false

/-- Notes an ordinary access in the trace. The key is put into words whether accesses are traced or
not. -/
def noteOrdinary (word : String) (key : Value) : Run Unit := do
  let shown ← Run.inspect key
  Run.note (pure [word, "ordinary", shown])

/-- Notes a virtual access in the trace. -/
def noteVirtual (word : String) (resolver : Value) (handler : Handler) : Run Unit := do
  Run.note (do return [word, "virtual", (← Run.heap).typeName resolver, "via", handler.source])

/-- Reads a reference. -/
def read (call : Caller) (ref : Reference) : Run Value := do
  match ref.name with
  | .binding name =>
    if !ref.resolvable then Run.fail (.unbound name ref)
    else
      Run.note (do return ["read", "binding", ← Run.text name])
      Environment.lookup ref.base name
  | .ordinary key =>
    noteOrdinary "read" key
    Ordinary.get call ref.base key ref.thisValue
  | .virtual resolver =>
    let handler ← Resolver.handler resolver .get
    noteVirtual "read" resolver handler
    handler.run call [ref.base]

/-- Writes a reference. -/
def write (call : Caller) (ref : Reference) (value : Value) : Run Unit := do
  match ref.name with
  | .binding name =>
    if !ref.resolvable then
      if ref.strict then Run.fail (.unboundWrite name ref)
      else
        -- A sloppy write to a name that nothing binds makes a global binding.
        Run.note (do return ["write", "binding", ← Run.text name, "-> new global"])
        Environment.assign (.object (← get).globals) name value
    else
      Run.note (do return ["write", "binding", ← Run.text name])
      Environment.assign ref.base name value
  | .ordinary key =>
    noteOrdinary "write" key
    -- The write is tried before strictness is looked at, so both modes try the same.
    let written ← Ordinary.set call ref.base key value ref.thisValue
    if !written && ref.strict then Run.fail (.writeRefused key ref)
  | .virtual resolver =>
    let handler ← Resolver.handler resolver .set
    noteVirtual "write" resolver handler
    let _ ← handler.run call [ref.base, value]

/-- Deletes a reference. -/
def delete (call : Caller) (ref : Reference) : Run Bool := do
  if ref.isSuper then Run.fail (.superDelete (.reference ref))
  else match ref.name with
    | .binding name =>
      if !ref.resolvable then return true
      else
        Run.note (do return ["delete", "binding", ← Run.text name])
        Environment.remove ref.base name
    | .ordinary key =>
      noteOrdinary "delete" key
      let deleted ← Ordinary.delete call ref.base key
      if !deleted && ref.strict then Run.fail (.deleteRefused key ref)
      else return deleted
    | .virtual resolver =>
      let handler ← Resolver.handler resolver .delete
      noteVirtual "delete" resolver handler
      -- What the handler answers does not matter: a virtual delete succeeds unless it faults.
      let _ ← handler.run call [ref.base]
      return true

end Dispatch

end ChainScript
