/-!
# Kinds of fault

Every failure of a program belongs to one of these kinds. Five are the language's own, one makes the
host leave at once, and the others are the usual kinds of a host.
-/

namespace ChainScript

/-- The kind of a fault. -/
inductive FaultKind where
  | unresolvableReference
  | invalidReferenceTarget
  | notInvocable
  | strictWriteFailure
  | strictDeleteFailure
  | syntaxError
  | typeError
  | valueError
  | keyError
  | lookupError
  | indexError
  | attributeError
  | runtimeError
  | recursionError
  | notImplementedError
  | hostExit
deriving DecidableEq, Inhabited

namespace FaultKind

/-- The name of the kind. -/
def name : FaultKind → String
  | .unresolvableReference => "UnresolvableReference"
  | .invalidReferenceTarget => "InvalidReferenceTarget"
  | .notInvocable => "NotInvocable"
  | .strictWriteFailure => "StrictWriteFailure"
  | .strictDeleteFailure => "StrictDeleteFailure"
  | .syntaxError => "SyntaxError"
  | .typeError => "TypeError"
  | .valueError => "ValueError"
  | .keyError => "KeyError"
  | .lookupError => "LookupError"
  | .indexError => "IndexError"
  | .attributeError => "AttributeError"
  | .runtimeError => "RuntimeError"
  | .recursionError => "RecursionError"
  | .notImplementedError => "NotImplementedError"
  | .hostExit => "HostExit"

/-- Every kind. -/
def all : List FaultKind :=
  [.unresolvableReference, .invalidReferenceTarget, .notInvocable, .strictWriteFailure,
   .strictDeleteFailure, .syntaxError, .typeError, .valueError, .keyError, .lookupError,
   .indexError, .attributeError, .runtimeError, .recursionError, .notImplementedError, .hostExit]

/-- The kind of a name. -/
def ofName? (name : String) : Option FaultKind :=
  all.find? fun kind => kind.name == name

/-- Whether the kind is one of the five that the language itself defines. These carry the value that
was at fault. -/
def isLanguage : FaultKind → Bool
  | .unresolvableReference | .invalidReferenceTarget | .notInvocable | .strictWriteFailure
  | .strictDeleteFailure => true
  | _ => false

/-- Whether the kind is that of a wrong type, or one of the language's own that belong to it. -/
def isTypeError : FaultKind → Bool
  | .typeError | .invalidReferenceTarget | .notInvocable | .strictWriteFailure
  | .strictDeleteFailure => true
  | _ => false

/-- The word that opens a report of a fault of the kind. -/
def reportName : FaultKind → String
  | .unresolvableReference => "ReferenceError"
  | .strictWriteFailure | .strictDeleteFailure => "TypeError"
  | kind => kind.name

/-- A kind is found again from its name. -/
theorem ofName?_name (kind : FaultKind) : ofName? kind.name = some kind := by
  cases kind <;> decide

end FaultKind

end ChainScript
