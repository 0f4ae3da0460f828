import ChainScript.Fault.Kind
import ChainScript.Print
import ChainScript.Syntax.Tree

/-!
# Faults

A fault is a cause: it says what went wrong with which values, references or nodes. Its kind, its
message and the subject that it carries all follow from the cause. A fault that arises where the
host's own operations fail has a kind but no message.
-/

namespace ChainScript

/-- What a fault is about. -/
inductive Subject where
  | value (v : Value)
  | reference (r : Reference)
  | node (n : Node)

/-- The cause of a failure. -/
inductive Fault where
  | native (kind : FaultKind)
  | raised (failure : HostFailure)
  | tree (fault : TreeFault)
  | inaccessible (name base : Value)
  | notBase (v : Value)
  | noParent (name : Value) (node : Node)
  | superDelete (subject : Subject)
  | unbound (name : Value) (reference : Reference)
  | unboundWrite (name : Value) (reference : Reference)
  | writeRefused (key : Value) (reference : Reference)
  | deleteRefused (key : Value) (reference : Reference)
  | handlerNotFunction (resolver : Value) (kind : AccessKind) (bySymbol : Bool)
  | noHandler (resolver : Value) (kind : AccessKind)
  | keyNotPrimitive (v : Value)
  | notCallable (v : Value)
  | badAssignTarget (node : Node)
  | notReference (node : Node)
  | unknownNode (node : Node)
  | attachTarget (v : Value)
  | attachHandler (v : Value)
  | weakPrimitive (v : Value)
  | weakUnsupported (v : Value)
  | freezeTarget (v : Value)
  | badPrototype (v : Value)
  | keysTarget (v : Value)
  | noAttribute (name : String)
  | immutableReference
  | badFlag (name raw : String)
  | unknownExtension (name : Value)
  | unknownExtensions (names : List String)
  | unknownSettings (names : List String)
  | flagNotBool (name : String) (v : Value)
  | extensionsNotList (v : Value)
  | badYaml
  | yamlNotMapping
  /-- What is met in the place of a fault whose message cannot be made. -/
  | messageLost (cause : Fault) (failure : PrintFailure)

namespace Node

/-- The name of the type of a node, or of the value that stands in its place. -/
def typeName (h : Heap) (n : Node) : String :=
  match n with
  | .value v => h.typeName v
  | .list _ => "list"
  | n => n.kind?.getD "Node"

end Node

namespace HostFailure

/-- The text of a failure. That of a missing key is quoted. -/
def text (failure : HostFailure) : String :=
  if failure.kind = .keyError then quoted failure.message else failure.message

end HostFailure

namespace TreeFault

/-- The message of a fault in a raw tree. Values are shown by the heap they live on. -/
def message (h : Heap) : TreeFault → Printed (Option String)
  | .notOneChild tag count =>
    pure (some ("\x27" ++ tag ++ "\x27 expects exactly one child, got " ++ toString count))
  | .notTwoOperands tag count =>
    pure (some ("\x27" ++ tag ++ "\x27 expects two operands, got " ++ toString count))
  | .notOneOperand => pure (some "\x27delete\x27 expects exactly one operand")
  | .noCallee => pure (some "\x27call\x27 requires a callee")
  | .noNumberText tree => do return some ("number node has no text: " ++ (← h.inspect tree))
  | .badNumber text => pure (some ("invalid number literal: " ++ quoted text))
  | .notProperty tree => do
    return some ("object literal expects \x27property\x27 entries, got " ++ (← h.inspect tree))
  | .notName tree => do return some ("expected a name, got " ++ (← h.inspect tree))
  | .unknownTag tag => do return some ("No transformer for tag \x27" ++ (← h.text tag) ++ "\x27")
  | .missingText | .notIterable => pure none

end TreeFault

namespace PrintFailure

/-- The kind of fault that a failure to print is. -/
def kind : PrintFailure → FaultKind
  | .notText => .typeError
  | .lostAttribute => .attributeError
  | .tooDeep => .recursionError

end PrintFailure

namespace Fault

/-- The kind of a fault. -/
def kind : Fault → FaultKind
  | .native kind => kind
  | .raised failure => failure.kind
  | .tree fault => fault.kind
  | .inaccessible .. | .notBase _ | .noParent .. | .superDelete _ => .invalidReferenceTarget
  | .unbound .. | .unboundWrite .. => .unresolvableReference
  | .writeRefused .. => .strictWriteFailure
  | .deleteRefused .. => .strictDeleteFailure
  | .handlerNotFunction .. | .noHandler .. => .notInvocable
  | .badAssignTarget _ => .syntaxError
  | .noAttribute _ | .immutableReference => .attributeError
  | .badFlag .. | .unknownExtension _ | .unknownExtensions _ | .unknownSettings _ | .flagNotBool ..
  | .extensionsNotList _ | .badYaml | .yamlNotMapping => .valueError
  | .keyNotPrimitive _ | .notCallable _ | .notReference _ | .unknownNode _ | .attachTarget _
  | .attachHandler _ | .weakPrimitive _ | .weakUnsupported _ | .freezeTarget _ | .badPrototype _
  | .keysTarget _ => .typeError
  | .messageLost _ failure => failure.kind

/-- Whether only a strict reference raises the fault: a refused write or delete, or a write to an
unbound identifier, which is met as the failure to show the identifier where that cannot be shown.
-/
def isRefusal : Fault → Bool
  | .writeRefused .. | .deleteRefused .. | .unboundWrite .. => true
  | .messageLost (.unboundWrite ..) _ => true
  | _ => false

/-- What the fault is about. Faults that are about nothing in particular are about null. -/
def subject : Fault → Subject
  | .inaccessible name _ => .value name
  | .notBase v => .value v
  | .noParent _ node => .node node
  | .superDelete subject => subject
  | .unbound _ ref | .unboundWrite _ ref | .writeRefused _ ref | .deleteRefused _ ref => .reference ref
  | .handlerNotFunction resolver _ _ | .noHandler resolver _ => .value resolver
  | _ => .value .null

/-- The kind of access that a resolver could not serve. -/
def access? : Fault → Option AccessKind
  | .handlerNotFunction _ kind _ | .noHandler _ kind => some kind
  | _ => none

/-- The message of a fault, where it has one. Values are shown by the heap they live on. -/
def message (h : Heap) : Fault → Printed (Option String)
  | .native _ => pure none
  | .raised failure => pure (some failure.text)
  | .tree fault => fault.message h
  | .inaccessible name base => do
    return some ("cannot access " ++ (← h.inspect name) ++ " of " ++ (← h.inspect base))
  | .notBase v => do return some ("cannot use " ++ (← h.inspect v) ++ " as an access target")
  | .noParent name _ => do return some ("super." ++ (← h.text name) ++ " has no parent object")
  | .superDelete _ => pure (some "cannot delete a super reference")
  | .unbound name _ | .unboundWrite name _ => do
    return some ((← h.text name) ++ " is not defined")
  | .writeRefused key ref => do
    return some ("cannot assign to " ++ (← h.inspect key) ++ " of " ++ h.typeName ref.base)
  | .deleteRefused key ref => do
    return some ("cannot delete " ++ (← h.inspect key) ++ " of " ++ h.typeName ref.base)
  | .handlerNotFunction resolver kind bySymbol => do
    let slot ← if bySymbol then h.inspect (.object kind.symbol) else pure kind.reservedName
    return some (h.typeName resolver ++ "." ++ slot ++ " is not callable")
  | .noHandler resolver kind =>
    pure (some (h.typeName resolver ++ " object is not invocable for " ++ kind.word ++ " "
      ++ kind.arguments))
  | .keyNotPrimitive v =>
    pure (some ("computed key must be a primitive, not " ++ h.typeName v
      ++ "; use \x27::\x27 for object-keyed access"))
  | .notCallable v => pure (some (h.typeName v ++ " object is not callable"))
  | .badAssignTarget node => pure (some ("invalid assignment target: " ++ node.typeName h))
  | .notReference node => pure (some (node.typeName h ++ " is not a valid reference target"))
  | .unknownNode node => pure (some ("cannot evaluate node " ++ node.typeName h))
  | .attachTarget v => pure (some ("attach_handlers expects a type, not " ++ h.typeName v))
  | .attachHandler v => pure (some ("handler must be callable, not " ++ h.typeName v))
  | .weakPrimitive v => do
    return some ("invalid value used as weak store key: " ++ (← h.inspect v))
  | .weakUnsupported v =>
    pure (some ("invalid value used as weak store key: " ++ h.typeName v
      ++ " does not support weak references"))
  | .freezeTarget v => pure (some ("freeze expects an object, not " ++ h.typeName v))
  | .badPrototype v => pure (some ("prototype must be an object or null, not " ++ h.typeName v))
  | .keysTarget v => pure (some ("keys expects an object, not " ++ h.typeName v))
  | .noAttribute name => pure (some name)
  | .immutableReference => pure (some "Reference is immutable")
  | .badFlag name raw => pure (some (name ++ " must be a boolean flag, got " ++ quoted raw))
  | .unknownExtension name => do
    return some ("unknown built-in extension: " ++ (← h.inspect name))
  | .unknownExtensions names =>
    pure (some ("unknown built-in extension(s): " ++ commaSeparated names))
  | .unknownSettings names => pure (some ("unknown config key(s): " ++ commaSeparated names))
  | .flagNotBool name v => do
    return some ("\x27" ++ name ++ "\x27 must be a boolean, got " ++ (← h.inspect v))
  | .extensionsNotList v => do
    return some ("\x27builtins\x27 must be a list, got " ++ (← h.inspect v))
  | .badYaml => pure (some "invalid config YAML")
  | .yamlNotMapping => pure (some "config YAML must be a mapping")
  | .messageLost .. => pure none

/-- The fault that a failure to print is where it stands in the place of no other. -/
def unprintable (failure : PrintFailure) : Fault := .native failure.kind

/-- The fault as it arises: the given one if its message can be made. -/
def arising (h : Heap) (fault : Fault) : Fault :=
  match fault.message h with
  | .ok _ => fault
  | .error failure => .messageLost fault failure

end Fault

end ChainScript
