import ChainScript.Value.Class

/-!
# Functions that are there from the start

The methods of stores, the functions of the library, and the functions that stand for what the host
does on its own: serving virtual accesses, awaiting, and looking after attributes that are more than
a stored value.
-/

namespace ChainScript

/-- What an associative store does when one of its methods is called. -/
inductive StoreOperation where
  | get
  | set
  | has
  | delete
  | clear
  | keys
  | values
  | items
deriving DecidableEq

/-- The functions of the standard library. -/
inductive LibraryFunction where
  | accessor
  | create
  | freeze
  | hasOwn
  | isFrozen
  | keys
deriving DecidableEq

namespace StoreOperation

/-- The name of the method. -/
def name : StoreOperation → String
  | .get => "get"
  | .set => "set"
  | .has => "has"
  | .delete => "delete"
  | .clear => "clear"
  | .keys => "keys"
  | .values => "values"
  | .items => "items"

/-- Whether the method takes the given number of arguments. -/
def takes : StoreOperation → Nat → Bool
  | .get, n => n == 1 || n == 2
  | .set, n => n == 2
  | .has, n | .delete, n => n == 1
  | .clear, n | .keys, n | .values, n | .items, n => n == 0

/-- The methods of a strong store. -/
def all : List StoreOperation := [.get, .set, .has, .delete, .clear, .keys, .values, .items]

/-- The methods of a weak store. -/
def weak : List StoreOperation := [.get, .set, .has, .delete]

end StoreOperation

namespace LibraryFunction

/-- The name under which programs find the function. -/
def name : LibraryFunction → String
  | .accessor => "accessor"
  | .create => "create"
  | .freeze => "freeze"
  | .hasOwn => "has_own"
  | .isFrozen => "is_frozen"
  | .keys => "keys"

/-- The functions in the order in which they are bound. -/
def all : List LibraryFunction := [.accessor, .create, .freeze, .hasOwn, .isFrozen, .keys]

end LibraryFunction

/-- The functions that are there from the start. Three serve virtual accesses through functions and
stores, one answers the list of its arguments, and one awaits its argument. The methods of stores
and the functions of the library are functions in their own right as well, which take what they
belong to as their first argument. The last ones read, set and delete an attribute that is more than
a stored value.
-/
inductive Builtin where
  | bindGet
  | storeGet
  | storeSet
  | storeDelete
  | collect
  | await
  | storeMethod (weak : Bool) (operation : StoreOperation)
  | libraryMethod (function : LibraryFunction)
  | attribute (name : String) (kind : AccessKind)
deriving DecidableEq

namespace Builtin

/-- The name of the function. -/
def name : Builtin → String
  | .bindGet => "bind_get"
  | .storeGet => "store_get"
  | .storeSet => "store_set"
  | .storeDelete => "store_delete"
  | .collect => "collect"
  | .await => "await"
  | .storeMethod _ operation => operation.name
  | .libraryMethod function => "_" ++ function.name
  | .attribute _ kind => kind.word ++ "attr"

end Builtin

end ChainScript
