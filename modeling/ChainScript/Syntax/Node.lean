import ChainScript.Value.Basic

/-!
# Program nodes

A program is a tree of nodes. Five kinds of node denote a place that can be read, written or
deleted: identifiers, members, indexed accesses, chains `obj :: resolver`, and members of the parent
of `this`. Names are values, since a host may build a node with a name of any kind. Where a host or
a raw tree puts something else in the place of an expression, the node is a `value`, or a `list` of
nodes that becomes one.
-/

namespace ChainScript

/-- Where a node stood in the source, as labelled facts in order. -/
abbrev Location := List (String × Value)

/-- A node of a program. -/
inductive Node where
  | literal (value : Value) (loc : Option Location)
  | identifier (name : Value) (loc : Option Location)
  | member (obj : Node) (name : Value) (loc : Option Location)
  | index (obj key : Node) (loc : Option Location)
  | chain (obj resolver : Node) (loc : Option Location)
  | superMember (name : Value) (loc : Option Location)
  | assign (target value : Node) (loc : Option Location)
  | delete (target : Node) (loc : Option Location)
  | call (callee : Node) (args : List Node) (loc : Option Location)
  | objectLiteral (entries : List (Value × Node)) (loc : Option Location)
  | program (body : List Node) (strict : Bool) (loc : Option Location)
  | other (kind : String) (loc : Option Location)
  | value (v : Value)
  | list (items : List Node)
deriving Inhabited

namespace Node

/-- The name of the kind of a node. Values and lists are not nodes of their own. -/
def kind? : Node → Option String
  | literal .. => some "Literal"
  | identifier .. => some "Identifier"
  | member .. => some "Member"
  | index .. => some "Index"
  | chain .. => some "Chain"
  | superMember .. => some "SuperMember"
  | assign .. => some "Assign"
  | delete .. => some "Delete"
  | call .. => some "Call"
  | objectLiteral .. => some "ObjectLiteral"
  | program .. => some "Program"
  | other name _ => some name
  | value _ | list _ => none

/-- Where the node stood, if that is known. -/
def loc : Node → Option Location
  | literal _ loc | identifier _ loc | superMember _ loc | delete _ loc | objectLiteral _ loc
  | other _ loc => loc
  | member _ _ loc | index _ _ loc | chain _ _ loc | assign _ _ loc | call _ _ loc
  | program _ _ loc => loc
  | value _ | list _ => none

/-- The node at a place in the source. -/
def withLoc (loc : Option Location) : Node → Node
  | literal v _ => literal v loc
  | identifier name _ => identifier name loc
  | member obj name _ => member obj name loc
  | index obj key _ => index obj key loc
  | chain obj resolver _ => chain obj resolver loc
  | superMember name _ => superMember name loc
  | assign target v _ => assign target v loc
  | delete target _ => delete target loc
  | call callee args _ => call callee args loc
  | objectLiteral entries _ => objectLiteral entries loc
  | program body strict _ => program body strict loc
  | other name _ => other name loc
  | value v => value v
  | list items => list items

/-- Whether the node denotes a place rather than only a value. -/
def isReference : Node → Bool
  | identifier .. | member .. | index .. | chain .. | superMember .. => true
  | _ => false

/-- Whether the node is a program. -/
def isProgram : Node → Bool
  | program .. => true
  | _ => false

/-- The node as a program: itself if it is one, and the program of this one statement otherwise. -/
def toProgram (node : Node) : Node :=
  if node.isProgram then node else program [node] false none

end Node

end ChainScript
