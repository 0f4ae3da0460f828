import ChainScript.Run

/-!
# The standard library

The functions that every program finds in the global environment: making, freezing and inspecting
records, and making accessors. A wrong number of arguments is a fault of the host's own.
-/

namespace ChainScript.Library

/-- The given argument, or null where it is missing. -/
def orNull (arguments : List Value) (i : Nat) : Value := arguments[i]?.getD .null

/-- Freezes a record for good, and answers it. -/
def freeze (v : Value) : Run Value := do
  match v, (← Run.heap).objectOf? v with
  | .object id, some (.record kind slots parent _) =>
    Run.put id (.record kind slots parent true)
    return v
  | _, _ => Run.fail (.freezeTarget v)

/-- Whether a value is a frozen record. -/
def isFrozen (h : Heap) (v : Value) : Bool :=
  match h.objectOf? v with
  | some (.record _ _ _ frozen) => frozen
  | _ => false

/-- Makes an empty record that inherits from a parent, or from nothing. -/
def create (parent : Value) : Run Value := do
  match parent with
  | .null => Run.alloc (.record .plain .empty none false)
  | .object id =>
    if (← Run.heap).isRecord parent then Run.alloc (.record .plain .empty (some id) false)
    else Run.fail (.badPrototype parent)
  | _ => Run.fail (.badPrototype parent)

/-- The names of the own slots of a record that are text, in order. -/
def keys (v : Value) : Run Value := do
  match (← Run.heap).objectOf? v with
  | some (.record _ slots _ _) =>
    Run.allocList ((Slots.labels slots).filter fun
      | .str _ => true
      | _ => false)
  | _ => Run.fail (.keysTarget v)

/-- Whether a value is a record with an own slot under a key. -/
def hasOwn (v key : Value) : Run Bool := do
  match (← Run.heap).objectOf? v with
  | some (.record _ slots _ _) => return Table.contains slots (← Run.keyOf key)
  | _ => return false

/-- Calls a function of the library. -/
def run (function : LibraryFunction) (arguments : List Value) : Run Value := do
  match function, arguments with
  | .accessor, [] | .accessor, [_] | .accessor, [_, _] =>
    Run.alloc (.accessor (some (orNull arguments 0)) (some (orNull arguments 1)))
  | .create, [] | .create, [_] => create (orNull arguments 0)
  | .freeze, [v] => freeze v
  | .hasOwn, [v, key] => return .bool (← hasOwn v key)
  | .isFrozen, [v] => return .bool (isFrozen (← Run.heap) v)
  | .keys, [v] => keys v
  | _, _ => Run.failNative .typeError

/-- The classes and values that programs find under their own names, in order. -/
def values : List (String × Value) :=
  [("Store", .type .store), ("WeakStore", .type .weakStore), ("Symbol", .type .symbol),
   ("undefined", .undefined), ("VGET", .object AccessKind.get.symbol),
   ("VSET", .object AccessKind.set.symbol), ("VDELETE", .object AccessKind.delete.symbol)]

/-- The bindings of a new global environment. The functions are methods of one object, which holds
the evaluator of the runner. -/
def bindings : Run Slots := do
  let evaluator ← Run.alloc (.evaluator (← get).globals)
  let library ← Run.alloc (.library (some evaluator))
  let functions ← LibraryFunction.all.mapM fun f => do
    return (f.name, ← Run.alloc (.method (.library (library.objectId?.getD 0) f)))
  return (values ++ functions).foldl
    (fun slots (name, v) => Slots.put slots (.str name) (.str name) v) .empty

end ChainScript.Library
