import ChainScript.Number.Binary64
import ChainScript.Value.Function

/-!
# Values

A value is a primitive, a class, one of the functions that come with the resolvers, or the identity
of an object on the heap. Values hold no other values, so they compare by their terms: two values
that name an object are the same when they name the same object.
-/

namespace ChainScript

/-- The place of an object on the heap. -/
abbrev ObjectId := Nat

/-- A value of the language. -/
inductive Value where
  | null
  | undefined
  | bool (b : Bool)
  | int (n : Int)
  | float (x : Binary64)
  | str (s : String)
  | type (c : Class)
  | builtin (f : Builtin)
  | object (id : ObjectId)
deriving DecidableEq, Inhabited

namespace Value

/-- Whether the value is null or undefined, the two that cannot be the base of an access. -/
def isNullish : Value → Bool
  | .null | .undefined => true
  | _ => false

/-- The object that the value names. -/
def objectId? : Value → Option ObjectId
  | .object id => some id
  | _ => none

end Value

end ChainScript
