import ChainScript.Value.Basic

/-!
# Keys

Two values name one slot when they are numerically equal or otherwise the same: `1`, `1.0` and
`true` name one slot, and so do the two zeros. A `Key` is the normal form of a value under this
equality, so that slots are looked up by plain equality of keys. Tuples name slots by their items,
and methods by the receiver and what they do to it.
-/

namespace ChainScript

/-- A function that belongs to an object: a store, an object or a class whose class brings the
function along, or the library of a runner. -/
inductive Method where
  | store (receiver : ObjectId) (operation : StoreOperation)
  | part (receiver : Value) (part : ClassPart)
  | library (receiver : ObjectId) (function : LibraryFunction)
deriving DecidableEq

/-- The normal form of a value that names a slot. -/
inductive Key where
  | null
  | undefined
  | number (n : Int)
  | float (x : Binary64)
  | str (s : String)
  | type (c : Class)
  | builtin (f : Builtin)
  | object (id : ObjectId)
  | method (m : Method)
  | nil
  | cons (head tail : Key)
deriving DecidableEq

namespace Method

/-- The name that the method shows. -/
def name : Method → String
  | .store _ operation => operation.name
  | .part _ p => p.name
  | .library _ function => "_" ++ function.name

/-- The value that the method belongs to. -/
def receiver : Method → Value
  | .store id _ | .library id _ => .object id
  | .part v _ => v

end Method

namespace Key

/-- The key of a floating-point number: that of the whole number it equals, if there is one. -/
def ofFloat (x : Binary64) : Key :=
  match x.toInt? with
  | some n => .number n
  | none => .float x

/-- The key of a value that is compared by what it is, not by what it holds. -/
def ofValue : Value → Key
  | .null => .null
  | .undefined => .undefined
  | .bool b => .number (if b then 1 else 0)
  | .int n => .number n
  | .float x => ofFloat x
  | .str s => .str s
  | .type c => .type c
  | .builtin f => .builtin f
  | .object id => .object id

/-- The key of a tuple from the keys of its items. -/
def ofItems (keys : List Key) : Key :=
  keys.foldr .cons .nil

end Key

end ChainScript
