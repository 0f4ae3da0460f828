import ChainScript.Access.Attribute

/-!
# Associative stores

A store maps keys to values in order of entry. Primitive keys are told apart by type and value,
objects by identity. A weak store takes only keys that can stand behind a weak reference, and an
entry whose key is no longer reachable does not count.

As resolvers, both kinds serve an access to `v :: store` by their own methods under the key `v`.

The methods of a strong store work on what the store shows as its data. A program can give a store
other data, or call the methods on something else that shows data of its own; then a method does to
that data what the data does by itself.
-/

namespace ChainScript.Store

/-- The entries of a store of either kind, and whether it is a weak one. -/
def entries? (h : Heap) (id : ObjectId) : Option (StoreEntries × Bool) :=
  match h.object? id with
  | some (.store entries) => some (entries, false)
  | some (.weakStore entries) => some (entries, true)
  | _ => none

/-- A store of the given kind. -/
def ofEntries (weak : Bool) (entries : StoreEntries) : Object :=
  if weak then .weakStore entries else .store entries

/-- The entries of a store on which a method is called. -/
def entriesOf (id : ObjectId) : Run (StoreEntries × Bool) := do
  match entries? (← Run.heap) id with
  | some found => return found
  | none => Run.failNative .attributeError

/-- The value under a key, or the given one if there is none. -/
def get (id : ObjectId) (key default : Value) : Run Value := do
  let (entries, _) ← entriesOf id
  return (StoreEntries.value? entries key).getD default

/-- Whether there is a value under a key. -/
def has (id : ObjectId) (key : Value) : Run Bool := do
  let (entries, _) ← entriesOf id
  return (StoreEntries.value? entries key).isSome

/-- Refuses what cannot be a key of a weak store. -/
def checkWeakKey (key : Value) : Run Unit := do
  let h ← Run.heap
  if h.isPrimitive key then Run.fail (.weakPrimitive key)
  else if !h.isWeakReferable key then Run.fail (.weakUnsupported key)

/-- Enters a value under a key. -/
def set (id : ObjectId) (key value : Value) : Run Unit := do
  let (entries, weak) ← entriesOf id
  if weak then checkWeakKey key
  Run.put id (ofEntries weak (StoreEntries.put entries key value))

/-- Removes a key, and says whether it was there. -/
def delete (id : ObjectId) (key : Value) : Run Bool := do
  let (entries, weak) ← entriesOf id
  Run.put id (ofEntries weak (Table.erase entries (storeKey key)))
  return (StoreEntries.value? entries key).isSome

/-- Removes every key. -/
def clear (id : ObjectId) : Run Unit := do
  let (_, weak) ← entriesOf id
  Run.put id (ofEntries weak .empty)

/-- An iterator over the entries as they are now, each as a pair. -/
def items (id : ObjectId) : Run Value := do
  let (entries, _) ← entriesOf id
  let pairs ← entries.values.mapM fun slot => Run.alloc (.tuple [slot.label, slot.value])
  Run.alloc (.iterator (.snapshot pairs))

/-- A store of the pairs that a value gives, which may be absent. -/
def make (weak : Bool) (source : Value) : Run Value := do
  let store ← Run.alloc (ofEntries weak .empty)
  if (← Run.heap).isTruthy source then
    for item in ← Run.iterate source do
      let (key, value) ← Run.pairOf item
      match store with
      | .object id => set id key value
      | _ => pure ()
  return store

/-- Calls a method of a store. -/
def callMethod (id : ObjectId) (operation : StoreOperation) (arguments : List Value) : Run Value := do
  match operation, arguments with
  | .get, [key] => get id key .undefined
  | .get, [key, default] => get id key default
  | .set, [key, value] =>
    set id key value
    return .object id
  | .has, [key] => return .bool (← has id key)
  | .delete, [key] => return .bool (← delete id key)
  | .clear, [] =>
    clear id
    return .null
  -- Iterators over keys and values look at the store again when they are used.
  | .keys, [] => Run.alloc (.iterator (.storeKeys id (← entriesOf id).1.size))
  | .values, [] => Run.alloc (.iterator (.storeValues id (← entriesOf id).1.size))
  | .items, [] => items id
  | _, _ => Run.failNative .typeError

/-! ## Methods on other data -/

/-- What a value shows as the data that the methods of a store work on. -/
def dataOf (v : Value) : Run (Option Value) := do
  let h ← Run.heap
  match h.objectOf? v, v with
  | some (.husk data), _ => return data
  -- A record shows its slots and those that it inherits.
  | some (.record ..), .object id =>
    return (h.owner? (.str "_data") id).bind fun owner => h.ownValue? owner (.str "_data")
  | _, _ =>
    if h.isForeign .get v "_data" then Run.outside else Attribute.get v "_data"

/-- Removes everything that data holds. A record does not look at whether it is frozen. -/
def emptyData (guard : Guard) (data : Value) : Run Value := do
  match data, (← Run.heap).objectOf? data with
  | .object id, some (.record kind _ parent frozen) =>
    if frozen then Run.detour guard .openFrozen
    Run.put id (.record kind .empty parent frozen)
    return .null
  | .object id, some (.dict _) =>
    Run.put id (.dict .empty)
    return .null
  | .object id, some (.list _) =>
    Run.put id (.list [])
    return .null
  | .null, _ | .undefined, _ | .bool _, _ | .int _, _ | .float _, _ | .str _, _
  | .object _, some (.tuple _) => Run.failNative .attributeError
  | _, _ => Run.outside

/-- Has a method of stores enter or remove something in data of another kind. What comes of it is
not described, but it is a detour where the data are a frozen record. -/
def changeData (guard : Guard) (data : Value) : Run Value := do
  match (← Run.heap).objectOf? data with
  | some (.record _ _ _ true) =>
    Run.detour guard .openFrozen
    Run.outside
  | _ => Run.outside

/-- Calls a method of a strong store on something that is none, or has other data. -/
def callLent (guard : Guard) (v : Value) (operation : StoreOperation) (arguments : List Value) :
    Run Value := do
  if !operation.takes arguments.length then Run.failNative .typeError
  else
    match ← dataOf v with
    | none => Run.failNative .attributeError
    | some data =>
      match operation with
      | .clear => emptyData guard data
      | .set | .delete => changeData guard data
      | _ => Run.outside

/-- Calls a method of a weak store on something that is none. -/
def callWeakLent (guard : Guard) (v : Value) : Run Value := do
  match ← dataOf v with
  | none => Run.outside
  | some data => changeData guard data

/-- Calls a method that a store shows. -/
def callBound (guard : Guard) (id : ObjectId) (operation : StoreOperation) (arguments : List Value) :
    Run Value := do
  match (← Run.heap).object? id with
  | some (.husk _) => callLent guard (.object id) operation arguments
  | _ => callMethod id operation arguments

/-- Calls a method of a store as a function, on its first argument. -/
def callFunction (guard : Guard) (weak : Bool) (operation : StoreOperation) :
    List Value → Run Value
  | [] => Run.failNative .typeError
  | v :: arguments => do
    match v, (← Run.heap).objectOf? v with
    | .object id, some (.store _) =>
      if weak then Run.outside else callMethod id operation arguments
    | .object id, some (.weakStore _) =>
      if weak then callMethod id operation arguments else Run.outside
    | _, _ => if weak then callWeakLent guard v else callLent guard v operation arguments

end ChainScript.Store
