import ChainScript.Heap.Basic

/-!
# The resolver registry

A registry holds handlers for the instances of classes. Attaching a set of handlers to a class
replaces the set that the class had and makes it the newest. A resolver is served by the newest set
whose class it is an instance of, and by no other, whether or not that set has a handler for the
access.
-/

namespace ChainScript

/-- The handlers attached to a class. Each takes the resolver before the arguments of the access. -/
structure HandlerSet where
  onGet : Option Value
  onSet : Option Value
  onDelete : Option Value
deriving DecidableEq, Inhabited

namespace HandlerSet

/-- The handler for a kind of access. -/
def forKind (handlers : HandlerSet) : AccessKind → Option Value
  | .get => handlers.onGet
  | .set => handlers.onSet
  | .delete => handlers.onDelete

/-- The handlers in the order of the kinds. -/
def toList (handlers : HandlerSet) : List (Option Value) :=
  [handlers.onGet, handlers.onSet, handlers.onDelete]

end HandlerSet

/-- Classes with their handlers, the newest last. -/
abbrev Registry := Table Class HandlerSet

namespace Registry

/-- Attaches handlers to a class. -/
def attach (r : Registry) (c : Class) (handlers : HandlerSet) : Registry :=
  -- Erasing first moves the class to the end, where the newest one stands.
  (r.erase c).insert c handlers

/-- A class that handlers were attached to has them, and every other class keeps its own. -/
theorem find?_attach (r : Registry) (c d : Class) (handlers : HandlerSet) :
    (r.attach c handlers).find? d = if d = c then some handlers else r.find? d := by
  rw [attach, Table.find?_insert, Table.find?_erase]
  split <;> rfl

/-- Takes the handlers of a class away. -/
def detach (r : Registry) (c : Class) : Registry := r.erase c

/-- The handlers that serve a resolver. -/
def lookup (r : Registry) (h : Heap) (resolver : Value) : Option HandlerSet :=
  (r.entries.reverse.find? fun entry => h.isInstance resolver entry.1).map Prod.snd

/-- The registry as diagnostics show it. -/
def text (r : Registry) : String :=
  "<ResolverRegistry [" ++ ", ".intercalate (r.keys.map Class.name) ++ "]>"

/-- The handlers of the built-in extension of the given name: functions as resolvers, and the two
kinds of store. -/
def builtin? : String → Option (Class × HandlerSet)
  | "callable" => some (.callable, ⟨some (.builtin .bindGet), none, none⟩)
  | "store" => some (.store,
      ⟨some (.builtin .storeGet), some (.builtin .storeSet), some (.builtin .storeDelete)⟩)
  | "weak-store" => some (.weakStore,
      ⟨some (.builtin .storeGet), some (.builtin .storeSet), some (.builtin .storeDelete)⟩)
  | _ => none

/-- The names of the built-in extensions. -/
def builtinNames : List String := ["callable", "store", "weak-store"]

/-- Attaches built-in extensions by name, in order. The first name that is none of them is returned
with what was attached before it. -/
def install (r : Registry) : List Value → Registry × Option Value
  | [] => (r, none)
  | .str name :: rest =>
    match builtin? name with
    | some (c, handlers) => (r.attach c handlers).install rest
    | none => (r, some (.str name))
  | name :: _ => (r, some name)

/-- The registry with every built-in extension. -/
def standard : Registry := (install .empty (builtinNames.map .str)).1

end Registry

end ChainScript
