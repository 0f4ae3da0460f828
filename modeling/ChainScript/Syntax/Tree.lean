import ChainScript.Fault.Kind
import ChainScript.Number.Numeral
import ChainScript.Syntax.Node

/-!
# Raw trees

A raw tree is what a grammar delivers: tagged dictionaries whose `children` are a list or a
dictionary of named children, and leaves. `Tree.toNode` turns it into program nodes. A leaf stands
for the literal of its value, and a list for the list of its nodes.

The tree that a node is read from is never deeper than the one around it. `Tree.Below` carries that
fact with every operand, and it is why the reading ends.
-/

namespace ChainScript

/-- A raw tree. Branches remember the value that they were made from. An `iterable` is a value that
is no tree itself, but can stand for a list of children. -/
inductive Tree where
  | leaf (v : Value)
  | list (self : Value) (items : List Tree)
  | dict (self : Value) (entries : List (Value × Tree))
  | iterable (self : Value) (items : List Tree)

/-- Why a raw tree does not denote a node. -/
inductive TreeFault where
  | notOneChild (tag : String) (count : Nat)
  | notTwoOperands (tag : String) (count : Nat)
  | notOneOperand
  | noCallee
  | noNumberText (tree : Value)
  | badNumber (text : String)
  | notProperty (tree : Value)
  | notName (tree : Value)
  | unknownTag (tag : Value)
  | missingText
  | notIterable
deriving DecidableEq

namespace TreeFault

/-- The kind of the fault. -/
def kind : TreeFault → FaultKind
  | .unknownTag _ => .notImplementedError
  | .missingText => .keyError
  | .notIterable => .typeError
  | _ => .syntaxError

end TreeFault

namespace Tree

/-- The value that the tree was made from. -/
def toValue : Tree → Value
  | .leaf v => v
  | .list self _ | .dict self _ | .iterable self _ => self

mutual

/-- The number of branches above the deepest leaf. -/
def height : Tree → Nat
  | .leaf _ => 0
  | .list _ items | .iterable _ items => heightAll items + 1
  | .dict _ entries => heightEntries entries + 1

/-- The greatest height among trees. -/
def heightAll : List Tree → Nat
  | [] => 0
  | t :: ts => max (height t) (heightAll ts)

/-- The greatest height among the trees of entries. -/
def heightEntries : List (Value × Tree) → Nat
  | [] => 0
  | (_, t) :: rest => max (height t) (heightEntries rest)

end

/-- A tree of less than the given height. -/
def Below (n : Nat) : Type := { t : Tree // t.height < n }

/-- No tree of a list is higher than the list. -/
theorem height_le_heightAll {t : Tree} {ts : List Tree} (h : t ∈ ts) : t.height ≤ heightAll ts := by
  induction ts with
  | nil => cases h
  | cons u us ih =>
    rw [heightAll]
    rcases List.mem_cons.mp h with rfl | h
    · exact Nat.le_max_left ..
    · exact Nat.le_trans (ih h) (Nat.le_max_right ..)

/-- No tree among entries is higher than the entries. -/
theorem height_le_heightEntries {e : Value × Tree} {es : List (Value × Tree)} (h : e ∈ es) :
    e.2.height ≤ heightEntries es := by
  induction es with
  | nil => cases h
  | cons u us ih =>
    obtain ⟨k, t⟩ := u
    rw [heightEntries]
    rcases List.mem_cons.mp h with rfl | h
    · exact Nat.le_max_left ..
    · exact Nat.le_trans (ih h) (Nat.le_max_right ..)

/-- The trees of a list, each below the height of a branch that holds the list. -/
def belowAll (items : List Tree) : List (Below (heightAll items + 1)) :=
  items.attach.map fun ⟨t, h⟩ => ⟨t, Nat.lt_succ_of_le (height_le_heightAll h)⟩

/-- The trees of entries, each below the height of a branch that holds them. -/
def belowEntries (entries : List (Value × Tree)) : List (Below (heightEntries entries + 1)) :=
  entries.attach.map fun ⟨e, h⟩ => ⟨e.2, Nat.lt_succ_of_le (height_le_heightEntries h)⟩

/-- Allows for a greater height. -/
def Below.weaken {m n : Nat} (h : m ≤ n) (t : Below m) : Below n :=
  ⟨t.1, Nat.lt_of_lt_of_le t.2 h⟩

/-- The tree under a name among the entries of a dictionary. -/
def field? (entries : List (Value × Tree)) (name : String) : Option Tree :=
  (entries.find? fun e => e.1 == .str name).map Prod.snd

/-- The value under a name, and null if there is none. -/
def fieldValue (entries : List (Value × Tree)) (name : String) : Value :=
  ((field? entries name).map toValue).getD .null

/-- The tag of a dictionary, where it is text. -/
def tag? (entries : List (Value × Tree)) : Option String :=
  match fieldValue entries "tag" with
  | .str s => some s
  | _ => none

/-- The tag of a tree that is a dictionary with a tag. -/
def tagOf? : Tree → Option String
  | .dict _ entries => tag? entries
  | _ => none

/-- The tree under a name is not as high as the dictionary. -/
theorem height_field? {entries : List (Value × Tree)} {name : String} {t : Tree}
    (h : field? entries name = some t) : t.height < heightEntries entries + 1 := by
  rw [field?, Option.map_eq_some_iff] at h
  obtain ⟨e, he, rfl⟩ := h
  exact Nat.lt_succ_of_le (height_le_heightEntries (List.mem_of_find?_eq_some he))

/-- The characters of a text as trees. -/
def ofText (n : Nat) (s : String) : List (Below (n + 1)) :=
  s.toList.map fun c => ⟨.leaf (.str (String.singleton c)), Nat.succ_pos n⟩

/-- Whether a leaf counts as an empty list where children are expected. -/
def isEmptyLeaf : Value → Bool
  | .null | .undefined | .bool false | .int 0 | .str "" => true
  | .float x => x.isZero
  | _ => false

/-- The operands of a node: its children in order, whether they are named or not. A missing or empty
value stands for no children, and a text for its characters. -/
def operands (entries : List (Value × Tree)) :
    Except TreeFault (List (Below (heightEntries entries + 1))) :=
  match h : field? entries "children" with
  | none => .ok []
  | some (.dict _ named) => .ok ((belowEntries named).map (.weaken (Nat.le_of_lt (height_field? h))))
  | some (.list _ items) => .ok ((belowAll items).map (.weaken (Nat.le_of_lt (height_field? h))))
  | some (.iterable _ items) => .ok ((belowAll items).map (.weaken (Nat.le_of_lt (height_field? h))))
  | some (.leaf v) =>
    if isEmptyLeaf v then .ok []
    else match v with
      | .str s => .ok (ofText _ s)
      | _ => .error .notIterable

/-- The statements of a program. Unlike operands they may not be empty values, and of a dictionary
the names are taken. -/
def statements (entries : List (Value × Tree)) :
    Except TreeFault (List (Below (heightEntries entries + 1))) :=
  match h : field? entries "children" with
  | none => .ok []
  | some (.dict _ named) => .ok (named.map fun e => ⟨.leaf e.1, Nat.succ_pos _⟩)
  | some (.list _ items) => .ok ((belowAll items).map (.weaken (Nat.le_of_lt (height_field? h))))
  | some (.iterable _ items) => .ok ((belowAll items).map (.weaken (Nat.le_of_lt (height_field? h))))
  | some (.leaf (.str s)) => .ok (ofText _ s)
  | some (.leaf _) => .error .notIterable

/-- The two operands of a node. -/
def pair (tag : String) (entries : List (Value × Tree)) :
    Except TreeFault (Below (heightEntries entries + 1) × Below (heightEntries entries + 1)) :=
  match operands entries with
  | .error e => .error e
  | .ok [a, b] => .ok (a, b)
  | .ok items => .error (.notTwoOperands tag items.length)

/-- The arguments of a call from its operands after the callee: those that are `args` groups are
taken apart. -/
def flattenArguments {n : Nat} : List (Below n) → Except TreeFault (List (Below n))
  | [] => .ok []
  | ⟨t, h⟩ :: rest => do
    let here ← match t, h with
      | .dict self entries, h =>
        if tag? entries = some "args" then do
          let items ← operands entries
          pure (items.map (.weaken (Nat.le_of_lt h)))
        else pure [⟨.dict self entries, h⟩]
      | t, h => pure [⟨t, h⟩]
    return here ++ (← flattenArguments rest)

/-- The name that a dictionary denotes by its text. -/
def textName (self : Value) (entries : List (Value × Tree)) : Except TreeFault Value :=
  match fieldValue entries "text" with
  | .null => .error (.notName self)
  | text => .ok text

/-- The name that a tree denotes: a text, the value of a number, or what the tree has as its text.
-/
def nameValue (t : Tree) : Except TreeFault Value :=
  match t with
  | .leaf (.str s) => .ok (.str s)
  | .dict self entries =>
    match tag? entries, field? entries "value" with
    | some "number", some v => .ok v.toValue
    | _, _ => textName self entries
  | t => .error (.notName t.toValue)

/-- The name and the value of a property of an object. -/
def propertyParts {n : Nat} : Below n → Except TreeFault (Below n × Below n)
  | ⟨.dict self entries, h⟩ =>
    if tag? entries = some "property" then do
      let (name, value) ← pair "property" entries
      pure (name.weaken (Nat.le_of_lt h), value.weaken (Nat.le_of_lt h))
    else .error (.notProperty self)
  | ⟨.leaf v, _⟩ | ⟨.list v _, _⟩ | ⟨.iterable v _, _⟩ => .error (.notProperty v)

/-- Where a dictionary stood in the source, if it says both line and column. -/
def location? (entries : List (Value × Tree)) : Option Location :=
  match fieldValue entries "line", fieldValue entries "col" with
  | .null, _ | _, .null => none
  | line, col =>
    some [("line", line), ("col", col), ("tag", fieldValue entries "tag"),
      ("text", fieldValue entries "text")]

/-- The text of a dictionary that must have one. -/
def text (entries : List (Value × Tree)) : Except TreeFault Value :=
  match field? entries "text" with
  | some t => .ok t.toValue
  | none => .error .missingText

/-- The value of a number node: the one that it carries, or the one that its text denotes. -/
def number (self : Value) (entries : List (Value × Tree)) : Except TreeFault Value :=
  match field? entries "value" with
  | some v => .ok v.toValue
  | none =>
    match fieldValue entries "text" with
    | .str s =>
      match Numeral.read? s with
      | some (.whole n) => .ok (.int n)
      | some (.binary x) => .ok (.float x)
      | none => .error (.badNumber s)
    | _ => .error (.noNumberText self)

/-- Whether a tree is a directive. -/
def isDirective (t : Tree) : Bool := t.tagOf? == some "directive"

/-- Whether a tree is a directive that asks for strictness. -/
def isStrictDirective : Tree → Bool
  | .dict _ entries =>
    tag? entries == some "directive"
      && (fieldValue entries "text" == .str "use strict" || fieldValue entries "text" == .str "use-strict")
  | _ => false

/-- Whether a tree is a comment. -/
def isComment (t : Tree) : Bool :=
  match t.tagOf? with
  | some "comment" | some "line-comment" | some "block-comment" => true
  | _ => false

/-- The trees that become the statements of a program. -/
def withoutNoise {n : Nat} (items : List (Below n)) : List (Below n) :=
  items.filter fun t => !(t.1.isDirective || t.1.isComment)

/-- Whether a directive before the first statement asks for strictness. -/
def asksStrict {n : Nat} (items : List (Below n)) : Bool :=
  (items.takeWhile fun t => t.1.isDirective || t.1.isComment).any fun t => t.1.isStrictDirective

/-- The node that a raw tree denotes. -/
def toNode (t : Tree) : Except TreeFault Node :=
  match t with
  | .leaf v => .ok (.literal v none)
  | .iterable self _ => .ok (.literal self none)
  | .list _ items => do
    return .list (← (belowAll items).mapM fun x => toNode x.1)
  | .dict self entries => do
    let loc := location? entries
    match tag? entries with
    | some "program" =>
      let items ← statements entries
      let body ← (withoutNoise items).mapM fun x => toNode x.1
      return .program body (asksStrict items) loc
    | some "expr" => match ← operands entries with
      | [x] => toNode x.1
      | items => throw (.notOneChild "expr" items.length)
    | some "group" => match ← operands entries with
      | [x] => toNode x.1
      | items => throw (.notOneChild "group" items.length)
    | some "number" => return .literal (← number self entries) loc
    | some "string" => return .literal (← text entries) loc
    | some "boolean" | some "null" => return .literal (fieldValue entries "value") loc
    | some "undefined" => return .literal .undefined loc
    | some "identifier" | some "name" => return .identifier (← text entries) loc
    | some "member" =>
      let (obj, name) ← pair "member" entries
      return .member (← toNode obj.1) (← nameValue name.1) loc
    | some "index" =>
      let (obj, key) ← pair "index" entries
      return .index (← toNode obj.1) (← toNode key.1) loc
    | some "chain" =>
      let (obj, resolver) ← pair "chain" entries
      return .chain (← toNode obj.1) (← toNode resolver.1) loc
    | some "super-member" => match ← operands entries with
      -- Without operands the name is the text of the node itself.
      | [] => return .superMember (← nameValue (.dict self entries)) loc
      | name :: _ => return .superMember (← nameValue name.1) loc
    | some "assign" =>
      let (target, value) ← pair "assign" entries
      return .assign (← toNode target.1) (← toNode value.1) loc
    | some "delete" => match ← operands entries with
      | [x] => return .delete (← toNode x.1) loc
      | _ => throw .notOneOperand
    | some "call" => match ← operands entries with
      | [] => throw .noCallee
      | callee :: rest =>
        let args ← flattenArguments rest
        return .call (← toNode callee.1) (← args.mapM fun x => toNode x.1) loc
    | some "object" =>
      let properties ← (← operands entries).mapM fun x => do
        let (name, value) ← propertyParts x
        return (← nameValue name.1, ← toNode value.1)
      return .objectLiteral properties loc
    | _ => throw (.unknownTag (fieldValue entries "tag"))
termination_by t.height
decreasing_by
  all_goals first
    | exact x.2
    | exact obj.2
    | exact name.2
    | exact key.2
    | exact resolver.2
    | exact target.2
    | exact callee.2
    | exact value.2

end Tree

end ChainScript
