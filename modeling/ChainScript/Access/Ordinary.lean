import ChainScript.Access.Attribute

/-!
# Ordinary access

Reading, writing and deleting a slot that a primitive key names, on every kind of base. A record
looks a key up along its chain of parents and runs accessors on the receiver; a mapping holds
entries; a sequence holds items under whole numbers, negative ones counting from the end; any other
host object has attributes. A write or a delete that is refused answers false and changes nothing.
An attribute that is the host's own is left to the host, which may run a function that belongs to
it.
-/

namespace ChainScript.Ordinary

/-- Refuses null and undefined as the base of an access. -/
def toObject (v : Value) : Run Value :=
  if v.isNullish then Run.fail (.notBase v) else return v

/-- Refuses a computed key that is not primitive. -/
def propertyKey (v : Value) : Run Value := do
  if (← Run.heap).isPrimitive v then return v else Run.fail (.keyNotPrimitive v)

/-- The receiver of an access: the given one, unless it is null. -/
def receiverOf (base this : Value) : Value := if this = .null then base else this

/-- The place that an index denotes in a sequence of the given length. -/
def position? (length : Nat) (index : Int) : Option Nat :=
  if 0 ≤ index then if index < length then some index.toNat else none
  else if 0 ≤ index + length then some (index + length).toNat
  else none

/-- The items of a value that is a sequence. -/
def sequence? (h : Heap) (v : Value) : Option (List Value) :=
  match v with
  | .str s => some (s.toList.map fun c => .str (String.singleton c))
  | v => match h.objectOf? v with
    | some (.list items) | some (.tuple items) => some items
    | _ => none

/-- The accessor that a value is, as its getter and its setter. -/
def accessor? (h : Heap) (v : Value) : Option (Option Value × Option Value) :=
  match h.objectOf? v with
  | some (.accessor getter setter) => some (getter, setter)
  | _ => none

/-- Reads a slot of a base. -/
def get (call : Caller) (base key this : Value) : Run Value := do
  let h ← Run.heap
  match h.objectOf? base, base with
  | some (.record ..), .object id =>
    let k ← Run.keyOf key
    match (h.owner? k id).bind fun owner => h.ownValue? owner k with
    | none => return .undefined
    | some slot =>
      -- An accessor that is inherited still runs on the object that was accessed.
      match accessor? h slot with
      | none => return slot
      | some (none, _) => Run.failNative .attributeError
      | some (some .null, _) => return .undefined
      | some (some getter, _) => call getter [receiverOf base this]
  | some (.dict entries), _ | some (.proxy entries), _ =>
    return (Slots.value? entries (← Run.keyOf key)).getD .undefined
  | _, _ =>
    match key, sequence? h base with
    -- A truth value is a number elsewhere, but it is no place in a sequence.
    | .int index, some items =>
      return ((position? items.length index).bind (items[·]?)).getD .undefined
    | .str name, _ =>
      if h.isForeign .get base name then call (.builtin (.attribute name .get)) [base]
      else return (← Attribute.get base name).getD .undefined
    | _, _ => return .undefined

/-- Writes a slot of a record itself, unless the record is frozen. -/
def writeOwn (id : ObjectId) (k : Key) (label value : Value) : Run Bool := do
  match (← Run.heap).object? id with
  | some (.record kind slots parent frozen) =>
    if frozen then return false
    else
      Run.put id (.record kind (Slots.put slots k label value) parent frozen)
      return true
  | _ => return false

/-- Writes a slot of a base, and says whether it could. -/
def set (call : Caller) (base key value this : Value) : Run Bool := do
  let h ← Run.heap
  match h.objectOf? base, base with
  | some (.record ..), .object id =>
    let k ← Run.keyOf key
    -- A write lands on the receiver, so a member of the parent of `this` is written on `this`.
    let target := match receiverOf base this with
      | .object r => if h.isRecord (.object r) then r else id
      | _ => id
    match ((h.owner? k id).bind fun owner => h.ownValue? owner k).bind (accessor? h) with
    | none => writeOwn target k key value
    | some (_, none) => Run.failNative .attributeError
    | some (_, some .null) => return false
    | some (_, some setter) =>
      let _ ← call setter [receiverOf base this, value]
      return true
  | some (.dict entries), .object id =>
    Run.put id (.dict (Slots.put entries (← Run.keyOf key) key value))
    return true
  | some (.proxy _), _ => return false
  | some (.list items), .object id =>
    match key with
    | .int index =>
      match position? items.length index with
      | some i =>
        Run.put id (.list (items.set i value))
        return true
      | none => return false
    | _ => return false
  | _, _ =>
    match key with
    | .str name =>
      if h.isForeign .set base name then
        return (← call (.builtin (.attribute name .set)) [base, value]) == .bool true
      else Attribute.set base name value
    | _ => return false

/-- Deletes a slot of a base, and says whether it is gone. -/
def delete (call : Caller) (base key : Value) : Run Bool := do
  let h ← Run.heap
  match h.objectOf? base, base with
  | some (.record kind slots parent frozen), .object id =>
    let k ← Run.keyOf key
    if !Table.contains slots k then return true
    else if frozen then return false
    else
      Run.put id (.record kind (Table.erase slots k) parent frozen)
      return true
  | some (.dict entries), .object id =>
    Run.put id (.dict (Table.erase entries (← Run.keyOf key)))
    return true
  | some (.proxy entries), _ =>
    return !Table.contains entries (← Run.keyOf key)
  | _, _ =>
    match key, sequence? h base with
    -- An item of a sequence cannot be taken out by its place.
    | .int index, some items => return (position? items.length index).isNone
    | .str name, _ =>
      if h.isForeign .delete base name then
        return (← call (.builtin (.attribute name .delete)) [base]) == .bool true
      else if Attribute.has h base name then Attribute.delete base name else return true
    | _, _ => return true

end ChainScript.Ordinary
