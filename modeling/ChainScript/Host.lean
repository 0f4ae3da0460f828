import ChainScript.Equality
import ChainScript.Runner

/-!
# The host's own view of objects

A host can use objects directly, past the language: call the methods of stores, records and
environments, read their fields, treat a record as a mapping of its own slots, and attach handlers
to classes. None of this looks at parents, accessors or frozen flags unless it says so.
-/

namespace ChainScript.Host

/-- The nearest object that owns a key, as a value. -/
def owner (id : ObjectId) (key : Value) : Run Value := do
  let k ← Run.keyOf key
  return (((← Run.heap).owner? k id).map Value.object).getD .null

/-- Calls a method by its name. -/
def callMethod (on : Value) (name : String) (arguments : List Value) : Run Value := do
  match on, ← Run.objectOf? on with
  | .object id, some (.record ..) =>
    match name, arguments with
    | "freeze", [] => Library.freeze on
    | "find_owner", [key] => owner id key
    | "freeze", _ | "find_owner", _ => Run.failNative .typeError
    | _, _ => Run.failNative .attributeError
  | .object id, some (.environment ..) =>
    match name, arguments with
    | "assign", [key, v] =>
      Environment.assign on key v
      return .null
    | "lookup", [key] => Environment.lookup on key
    | "remove", [key] => return .bool (← Environment.remove on key)
    | "find_owner", [key] => owner id key
    | "assign", _ | "lookup", _ | "remove", _ | "find_owner", _ => Run.failNative .typeError
    | _, _ => Run.failNative .attributeError
  | _, _ => Invoke.callShown Runner.call on name arguments

/-- A value as it is, except that an iterator becomes the list of what it gives. -/
def drain (v : Value) : Run Value := do
  match ← Run.objectOf? v with
  | some (.iterator _) => Run.allocList (← Run.iterate v)
  | _ => return v

/-- Reads a field by its name. A record shows its parts, and under any other name a slot of its own
or of a parent, unless the name is reserved. -/
def field (on : Value) (name : String) : Run Value := do
  let h ← Run.heap
  match on, h.objectOf? on with
  | .object id, some (.record kind slots parent frozen) =>
    match name with
    | "data" => Run.alloc (.dict slots)
    | "parent" => return (parent.map Value.object).getD .null
    | "frozen" => return .bool frozen
    | _ =>
      match (AccessKind.ofReservedName? name).bind fun access =>
          (kind.offer access).given? on (.handler (.record kind) access) with
      | some given => given.toValue
      | none =>
        -- A reserved name is never looked up among the slots.
        if name.startsWith "__" then Run.fail (.noAttribute name)
        else
          let k : Key := .str name
          match (h.owner? k id).bind fun owner => h.ownValue? owner k with
          | some v => return v
          | none => Run.fail (.noAttribute name)
  | .object id, some (.environment _ parent) =>
    match name with
    | "global_env" => return .object (h.root id)
    | "parent" => return (parent.map Value.object).getD .null
    | _ => Run.failNative .attributeError
  | _, _ =>
    match ← Attribute.get on name with
    | some v => return v
    | none => Run.failNative .attributeError

/-- The own slots of a record, or the entries of a dictionary, with what replaces the object when
they change. -/
def ownSlots (on : Value) : Run (ObjectId × Slots × (Slots → Object)) := do
  match on, ← Run.objectOf? on with
  | .object id, some (.record kind slots parent frozen) =>
    return (id, slots, fun slots => .record kind slots parent frozen)
  | .object id, some (.dict entries) => return (id, entries, .dict)
  | _, _ => Run.failNative .typeError

/-- Reads an own slot, which must be there. -/
def getItem (on key : Value) : Run Value := do
  let (_, slots, _) ← ownSlots on
  match Slots.value? slots (← Run.keyOf key) with
  | some v => return v
  | none => Run.failNative .keyError

/-- Writes an own slot. -/
def setItem (on key v : Value) : Run Unit := do
  let (id, slots, rebuild) ← ownSlots on
  Run.put id (rebuild (Slots.put slots (← Run.keyOf key) key v))

/-- Removes an own slot, which must be there. -/
def deleteItem (on key : Value) : Run Unit := do
  let (id, slots, rebuild) ← ownSlots on
  let k ← Run.keyOf key
  if Table.contains slots k then Run.put id (rebuild (Table.erase slots k))
  else Run.failNative .keyError

/-- Whether an object holds a key, or a sequence an item. -/
def contains (on key : Value) : Run Bool := do
  let h ← Run.heap
  match on, h.objectOf? on with
  | _, some (.record _ slots _ _) | _, some (.dict slots) | _, some (.proxy slots) =>
    return Table.contains slots (← Run.keyOf key)
  | .object id, some (.store _) | .object id, some (.weakStore _) => Store.has id key
  | _, some (.environment ..) => return (← Environment.owner on key).isSome
  | _, _ => return (← Run.iterate on).any (h.equal key)

/-- The number of things that an object holds. -/
def length (on : Value) : Run Nat := do
  match ← Run.objectOf? on with
  | some (.weakStore entries) => return Table.size entries
  | some (.iterator _) => Run.failNative .typeError
  | _ => return (← Run.iterate on).length

/-- Installs built-in extensions by the names that a value gives. Those before an unknown one stay.
-/
def install (names : Value) : Run Unit := do
  let (registry, unknown) := Registry.install (← get).registry (← Run.iterate names)
  modify fun m => { m with registry }
  match unknown with
  | none => return
  | some name => Run.fail (.unknownExtension name)

/-- The kind of access that a word names. -/
def kindOf (word : String) (unknown : FaultKind) : Run AccessKind := do
  match AccessKind.ofWord? word with
  | some kind => return kind
  | none => Run.failNative unknown

/-- The handler of a kind among up to three handlers given in order. -/
def handlerOf (handlers : List Value) (word : String) : Run Value := do
  if handlers.length > 3 then Run.failNative .typeError
  else
    let given (i : Nat) : Option Value := handlers[i]?.bind fun v => if v = .null then none else some v
    let set : HandlerSet := ⟨given 0, given 1, given 2⟩
    return (set.forKind (← kindOf word .attributeError)).getD .null

end ChainScript.Host
