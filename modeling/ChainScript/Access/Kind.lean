/-!
# Kinds of access

A property is read, written or deleted, and a resolver may serve each kind with a handler of its
own.
-/

namespace ChainScript

/-- What is done to a property. -/
inductive AccessKind where
  | get
  | set
  | delete
deriving DecidableEq, Inhabited

namespace AccessKind

/-- The word for the kind. -/
def word : AccessKind → String
  | .get => "get"
  | .set => "set"
  | .delete => "delete"

/-- The kind that a word names. -/
def ofWord? : String → Option AccessKind
  | "get" => some .get
  | "set" => some .set
  | "delete" => some .delete
  | _ => none

/-- The attribute under which a host object offers its own handler for the kind. -/
def reservedName : AccessKind → String
  | .get => "__vget__"
  | .set => "__vset__"
  | .delete => "__vdelete__"

/-- The arguments that a handler for the kind takes, as diagnostics show them. -/
def arguments : AccessKind → String
  | .get => "(base)"
  | .set => "(base, value)"
  | .delete => "(base)"

/-- The kind that is named by an attribute. -/
def ofReservedName? (name : String) : Option AccessKind :=
  [.get, .set, .delete].find? fun kind => kind.reservedName == name

/-- A kind is found again from its word. -/
theorem ofWord?_word (kind : AccessKind) : ofWord? kind.word = some kind := by
  cases kind <;> rfl

end AccessKind

end ChainScript
