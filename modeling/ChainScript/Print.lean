import ChainScript.Heap.Basic
import ChainScript.Number.Shortest
import ChainScript.Text.Identifier
import ChainScript.Text.Quoted

/-!
# Printed forms

A value has two printed forms. `inspect` is the exact form that diagnostics quote: it tells a string
from a name and closes over what it meets, cutting a container off where it recurs inside itself.
`render` is the source-like form of the language: it cuts records and mappings off below the third
level. The two call one another, since a record is inspected as it is rendered, and anything that
the language has no notation for is rendered as it is inspected.

Nodes have both forms as well, over the form of the values in them. A rendered identifier is its
name, which may be a value of any kind: only text can be joined with other text, so printing can
fail. It can also fail on an object that has lost an attribute.

The heap may be cyclic, and a list that is rendered inside itself has no end. Both forms take a
bound on the depth, and printing that would nest deeper than `Heap.printDepth` fails.
-/

namespace ChainScript

/-- Why a printed form cannot be made. -/
inductive PrintFailure where
  | notText
  | lostAttribute
  | tooDeep
deriving DecidableEq

/-- A printed form, or why there is none. -/
abbrev Printed := Except PrintFailure

/-- The texts of values that are all texts. -/
def allTexts : List Value → Printed (List String)
  | [] => pure []
  | .str s :: rest => do return s :: (← allTexts rest)
  | _ :: _ => throw .notText

/-- Texts with commas between them. -/
def commaSeparated (texts : List String) : String := ", ".intercalate texts

/-- The two forms of values, from which those of nodes are made. -/
structure ValuePrinter where
  inspect : Value → Printed String
  render : Int → Value → Printed Value

namespace ValuePrinter

/-- The text of a value inside other text. -/
def text (p : ValuePrinter) : Value → Printed String
  | .str s => pure s
  | v => p.inspect v

/-- A slot name as it is written in an object: bare where it is an identifier. -/
def slotName (p : ValuePrinter) (name : Value) : Printed String := do
  let computed := do
    let key ← p.text (← p.render 0 name)
    return "[" ++ key ++ "]"
  match name with
  | .str s => if isIdentifier s then return s else computed
  | _ => computed

mutual

/-- The inspected form of a node: its kind and its named parts. -/
def inspectNode (p : ValuePrinter) : Node → Printed String
  | .literal v _ => do return "Literal(value=" ++ (← p.inspect v) ++ ")"
  | .identifier name _ => do return "Identifier(name=" ++ (← p.inspect name) ++ ")"
  | .member obj name _ => do
    return "Member(obj=" ++ (← p.inspectNode obj) ++ ", name=" ++ (← p.inspect name) ++ ")"
  | .index obj key _ => do
    return "Index(obj=" ++ (← p.inspectNode obj) ++ ", key=" ++ (← p.inspectNode key) ++ ")"
  | .chain obj resolver _ => do
    return "Chain(obj=" ++ (← p.inspectNode obj) ++ ", resolver=" ++ (← p.inspectNode resolver) ++ ")"
  | .superMember name _ => do return "SuperMember(name=" ++ (← p.inspect name) ++ ")"
  | .assign target v _ => do
    return "Assign(target=" ++ (← p.inspectNode target) ++ ", value=" ++ (← p.inspectNode v) ++ ")"
  | .delete target _ => do return "Delete(target=" ++ (← p.inspectNode target) ++ ")"
  | .call callee args _ => do
    return "Call(callee=" ++ (← p.inspectNode callee) ++ ", args=["
      ++ commaSeparated (← p.inspectNodes args) ++ "])"
  | .objectLiteral entries _ => do
    return "ObjectLiteral(entries=[" ++ commaSeparated (← p.inspectEntries entries) ++ "])"
  | .program body strict _ => do
    return "Program(body=[" ++ commaSeparated (← p.inspectNodes body) ++ "], strict="
      ++ (if strict then "True" else "False") ++ ")"
  | .other kind _ => pure (kind ++ "()")
  | .value v => p.inspect v
  | .list items => do return "[" ++ commaSeparated (← p.inspectNodes items) ++ "]"

/-- The inspected forms of nodes in order. -/
def inspectNodes (p : ValuePrinter) : List Node → Printed (List String)
  | [] => pure []
  | n :: ns => do return (← p.inspectNode n) :: (← p.inspectNodes ns)

/-- The inspected forms of the entries of an object literal in order. -/
def inspectEntries (p : ValuePrinter) : List (Value × Node) → Printed (List String)
  | [] => pure []
  | (name, n) :: rest => do
    let entry := "(" ++ (← p.inspect name) ++ ", " ++ (← p.inspectNode n) ++ ")"
    return entry :: (← p.inspectEntries rest)

end

/-- The white space that opens a line at a level. -/
def indentation (width level : Int) : String :=
  String.ofList (List.replicate (width.toNat * level.toNat) ' ')

mutual

/-- The rendered form of a node at a level, with the given width of an indentation step. -/
def renderNode (p : ValuePrinter) (width level : Int) : Node → Printed Value
  | .literal v _ => p.render level v
  | .identifier name _ => pure name
  | .member obj name _ => do
    let base ← p.text (← p.renderNode width level obj)
    return .str (base ++ "." ++ (← p.text name))
  | .index obj key _ => do
    let base ← p.text (← p.renderNode width level obj)
    let inner ← p.text (← p.renderNode width level key)
    return .str (base ++ "[" ++ inner ++ "]")
  | .chain obj resolver _ => do
    let base ← p.text (← p.renderNode width level obj)
    return .str (base ++ " :: " ++ (← p.text (← p.renderNode width level resolver)))
  | .superMember name _ => do return .str ("super." ++ (← p.text name))
  | .assign target v _ => do
    let place ← p.text (← p.renderNode width level target)
    return .str (place ++ " = " ++ (← p.text (← p.renderNode width level v)))
  | .delete target _ => do
    return .str ("delete " ++ (← p.text (← p.renderNode width level target)))
  | .call callee args _ => do
    let texts ← allTexts (← p.renderNodes width level args)
    let f ← p.text (← p.renderNode width level callee)
    return .str (f ++ "(" ++ commaSeparated texts ++ ")")
  | .objectLiteral entries _ => do
    return .str ("\x7b" ++ commaSeparated (← p.renderEntries width level entries) ++ "\x7d")
  | .program body strict _ => do
    let lines ← p.renderLines width level body
    let opening := indentation width level ++ "\x27use strict\x27"
    return .str ("\n".intercalate (if strict then opening :: lines else lines))
  | .other kind _ => pure (.str (kind ++ "()"))
  | .value v => p.render level v
  | .list items => do
    return .str ("[" ++ commaSeparated (← allTexts (← p.renderNodes width level items)) ++ "]")

/-- The rendered forms of nodes in order. -/
def renderNodes (p : ValuePrinter) (width level : Int) : List Node → Printed (List Value)
  | [] => pure []
  | n :: ns => do return (← p.renderNode width level n) :: (← p.renderNodes width level ns)

/-- The rendered forms of the entries of an object literal in order. -/
def renderEntries (p : ValuePrinter) (width level : Int) : List (Value × Node) → Printed (List String)
  | [] => pure []
  | (name, n) :: rest => do
    let key ← p.slotName name
    let entry := key ++ ": " ++ (← p.text (← p.renderNode width level n))
    return entry :: (← p.renderEntries width level rest)

/-- The lines of a program, each indented to its level. -/
def renderLines (p : ValuePrinter) (width level : Int) : List Node → Printed (List String)
  | [] => pure []
  | n :: ns => do
    let lines ← match ← p.renderNode width level n with
      | .str s => pure (indentation width level ++ s)
      | _ => throw .notText
    return lines :: (← p.renderLines width level ns)

end

end ValuePrinter

/-- A string as the language writes it, in single quotes with quotes and backslashes escaped. -/
def stringLiteral (s : String) : String :=
  let escaped := s.toList.flatMap fun c =>
    if c == '\\' || c == '\x27' then ['\\', c] else [c]
  String.ofList ('\x27' :: escaped ++ ['\x27'])

/-- The access to a slot as it is written after a base. -/
def ValuePrinter.slotAccess (p : ValuePrinter) : Value → Printed String
  | .str s => return if isIdentifier s then "." ++ s else "[" ++ stringLiteral s ++ "]"
  | key => do return "[" ++ (← p.text (← p.render 0 key)) ++ "]"

namespace Heap

/-- The name that a value shows, where it has one. -/
def shownName? (h : Heap) (v : Value) : Option Value :=
  match v with
  | .type c => some (.str c.name)
  | .builtin f => some (.str f.name)
  | v =>
    match (h.attributes v).find? "__name__" with
    | some name => some name
    | none =>
      match h.objectOf? v with
      | some (.function f) => f.name
      | some (.method m) => some (.str m.name)
      | _ => none

/-- How deep printing may nest. -/
def printDepth : Nat := 1000

/-- There is always room to print what holds nothing. -/
theorem exists_printDepth : ∃ depth, printDepth = depth + 2 := ⟨998, rfl⟩

/-- The number of things that a value holds, to a depth: a store with other data leaves it to that
data.
-/
def lengthWithin (h : Heap) : Nat → Value → Printed Nat
  | 0, _ => throw .tooDeep
  | depth + 1, v =>
    match v with
    | .str s => pure s.length
    | .object id =>
      match h.object? id with
      | some (.list items) | some (.tuple items) => pure items.length
      | some (.dict entries) | some (.proxy entries) | some (.record _ entries _ _) =>
        pure (Table.size entries)
      | some (.store entries) | some (.weakStore entries) => pure (Table.size entries)
      | some (.husk (some data)) => h.lengthWithin depth data
      | some (.husk none) => throw .lostAttribute
      | _ => throw .notText
    | _ => throw .notText

/-- The number of things that a value holds, if it has one. -/
def length (h : Heap) (v : Value) : Printed Nat := h.lengthWithin printDepth v

/-- The text of what an object keeps as an attribute, which it may have lost. -/
def keptText (text : Value → Printed String) : Option Value → Printed String
  | some v => text v
  | none => throw .lostAttribute

/-- The rendered form of what can be called: its name, or the inspected form where it has none. -/
def renderCallable (h : Heap) (p : ValuePrinter) (v : Value) : Printed Value := do
  match h.shownName? v with
  | some name =>
    if h.isTruthy name then return .str ("<fn " ++ (← p.text name) ++ ">")
    else return .str (← p.inspect v)
  | none => return .str (← p.inspect v)

/-- The form of a value in a rendered reference, which does not open records. -/
def shortForm (h : Heap) (p : ValuePrinter) (v : Value) : Printed String := do
  match v, h.objectOf? v with
  | .object _, some (.record _ slots _ _) =>
    return if Table.isEmpty slots then "\x7b\x7d" else "\x7b...\x7d"
  | .object _, _ | .type _, _ | .builtin _, _ =>
    match h.shownName? v with
    | some (.str name) => return name
    | _ => return "<" ++ h.typeName v ++ ">"
  | v, _ => p.text (← p.render 0 v)

/-- The rendered form of a reference. -/
def renderReference (h : Heap) (p : ValuePrinter) (r : Reference) : Printed Value := do
  match r.name with
  | .binding name =>
    if r.resolvable then return name
    else return .str ((← p.text name) ++ " (unresolvable)")
  | .ordinary key =>
    let base ← if r.isSuper then pure "super" else h.shortForm p r.base
    return .str (base ++ (← p.slotAccess key))
  | .virtual resolver =>
    return .str ((← h.shortForm p r.base) ++ " :: " ++ (← h.shortForm p resolver))

mutual

/-- The inspected form of a value, to a depth. The second argument lists the containers around it.
-/
def inspectWithin (h : Heap) : Nat → List ObjectId → Value → Printed String
  | 0, _, _ => throw .tooDeep
  | depth + 1, around, v =>
    let p : ValuePrinter :=
      ⟨h.inspectWithin depth around, fun level v => h.renderWithin depth around 2 level v⟩
    match v with
    | .null => pure "None"
    | .undefined => pure "undefined"
    | .bool b => pure (if b then "True" else "False")
    | .int n => pure (toString n)
    | .float x => pure x.text
    | .str s => pure (quoted s)
    | .type c => pure ("<class \x27" ++ c.qualifiedName ++ "\x27>")
    | .builtin f => pure ("<function " ++ f.name ++ ">")
    | .object id =>
      let dictText (entries : Slots) : Printed String :=
        if around.contains id then pure "\x7b...\x7d"
        else do
          let parts ← entries.values.mapM fun slot => do
            let key ← h.inspectWithin depth (id :: around) slot.label
            return key ++ ": " ++ (← h.inspectWithin depth (id :: around) slot.value)
          return "\x7b" ++ commaSeparated parts ++ "\x7d"
      match h.object? id with
      | none => pure "<object>"
      | some (.list items) =>
        if around.contains id then pure "[...]"
        else do
          let parts ← items.mapM (h.inspectWithin depth (id :: around))
          return "[" ++ commaSeparated parts ++ "]"
      | some (.tuple items) =>
        if around.contains id then pure "(...)"
        else do
          let parts ← items.mapM (h.inspectWithin depth (id :: around))
          return "(" ++ commaSeparated parts ++ (if parts.length = 1 then ",)" else ")")
      | some (.dict entries) => dictText entries
      | some (.proxy entries) => do return "mappingproxy(" ++ (← dictText entries) ++ ")"
      | some (.record ..) => do p.text (← h.renderWithin depth around 2 0 v)
      | some (.symbol description) =>
        if description = some .null then pure "Symbol()"
        else do return "Symbol(" ++ (← keptText p.text description) ++ ")"
      | some (.accessor getter setter) =>
        match getter, setter with
        | some g, some s =>
          let kinds := (if g = .null then [] else ["get"]) ++ (if s = .null then [] else ["set"])
          pure ("<Accessor " ++ (if kinds.isEmpty then "empty" else "/".intercalate kinds) ++ ">")
        | _, _ => throw .lostAttribute
      | some (.function f) => do
        return "<" ++ f.kind.name ++ " " ++ (← keptText p.text f.name) ++ ">"
      | some (.instance kind) => pure ("<" ++ kind.name ++ ">")
      | some (.store entries) => pure ("<Store size=" ++ toString (Table.size entries) ++ ">")
      | some (.weakStore entries) => pure ("<WeakStore size=" ++ toString (Table.size entries) ++ ">")
      | some (.husk _) => do return "<Store size=" ++ toString (← h.length v) ++ ">"
      | some (.bound (some target) (some receiver)) => do
        let name ← p.text ((h.shownName? target).getD (.str (h.typeName target)))
        return "<BoundFunction " ++ name ++ " receiver=" ++ h.typeName receiver ++ ">"
      | some (.bound ..) => throw .lostAttribute
      | some (.method m) => do
        return "<bound method " ++ h.typeName m.receiver ++ "." ++ m.name ++ " of "
          ++ (← p.inspect m.receiver) ++ ">"
      | some (.iterator _) => pure "<iterator>"
      | some (.awaitable once ..) => pure (if once then "<coroutine>" else "<Awaitable>")
      | some (.environment bindings parent) => do
        let names ← allTexts (Slots.labels bindings)
        return "<Environment bindings=[" ++ commaSeparated names ++ "]"
          ++ (if parent.isSome then ", parent=#ID" else "") ++ ">"
      | some (.reference _) => do
        return "<Reference " ++ (← p.text (← h.renderWithin depth around 2 0 v)) ++ ">"
      | some (.node n) => p.inspectNode n
      | some (.library _) => pure "<StdLib>"
      | some (.evaluator _) => pure "<Evaluator>"

/-- The rendered form of a value, to a depth, at a level. -/
def renderWithin (h : Heap) : Nat → List ObjectId → Int → Int → Value → Printed Value
  | 0, _, _, _, _ => throw .tooDeep
  | depth + 1, around, width, level, v =>
    let p : ValuePrinter :=
      ⟨h.inspectWithin depth around, fun level v => h.renderWithin depth around width level v⟩
    match v with
    | .null => pure (.str "null")
    | .undefined => pure (.str "undefined")
    | .bool b => pure (.str (if b then "true" else "false"))
    | .str s => pure (.str (stringLiteral s))
    | .type _ | .builtin _ => h.renderCallable p v
    | .int _ | .float _ => do return .str (← p.inspect v)
    | .object id =>
      match h.object? id with
      | some (.list items) => do
        let parts ← items.mapM (h.renderWithin depth around width level)
        return .str ("[" ++ commaSeparated (← allTexts parts) ++ "]")
      | some (.record _ slots _ _) =>
        -- Nothing is cut off where nothing would be shown.
        if Table.isEmpty slots then pure (.str "\x7b\x7d")
        else if level > 2 then pure (.str "\x7b...\x7d")
        else do
          let parts ← slots.values.mapM fun slot => do
            let key ← p.slotName slot.label
            let value ← h.renderWithin depth around width (level + 1) slot.value
            return key ++ ": " ++ (← p.text value)
          return .str ("\x7b" ++ commaSeparated parts ++ "\x7d")
      | some (.dict entries) | some (.proxy entries) =>
        if Table.isEmpty entries then pure (.str "#\x7b\x7d")
        else if level > 2 then pure (.str "#\x7b...\x7d")
        else do
          let parts ← entries.values.mapM fun slot => do
            let key ← p.text (← h.renderWithin depth around width (level + 1) slot.label)
            let value ← h.renderWithin depth around width (level + 1) slot.value
            return key ++ ": " ++ (← p.text value)
          return .str ("#\x7b" ++ commaSeparated parts ++ "\x7d")
      | some (.environment ..) => pure (.str "<env>")
      | some (.function _) | some (.bound ..) | some (.method _) => h.renderCallable p v
      | some (.node n) => p.renderNode width level n
      | some (.reference r) => h.renderReference p r
      | _ => do return .str (← p.inspect v)

end

/-- The printers for the values of a heap. -/
def printer (h : Heap) (width : Int) : ValuePrinter :=
  ⟨h.inspectWithin printDepth [], fun level v => h.renderWithin printDepth [] width level v⟩

/-- The inspected form of a value. -/
def inspect (h : Heap) (v : Value) : Printed String := (h.printer 2).inspect v

/-- A text is inspected as it is quoted, whatever the heap holds. -/
theorem inspect_str (h : Heap) (s : String) : h.inspect (.str s) = .ok (quoted s) := by
  obtain ⟨depth, hdepth⟩ := exists_printDepth
  simp only [inspect, printer, hdepth]
  rfl

/-- The text of a value inside other text. -/
def text (h : Heap) (v : Value) : Printed String := (h.printer 2).text v

/-- The rendered form of a value. -/
def render (h : Heap) (width level : Int) (v : Value) : Printed Value :=
  (h.printer width).render level v

/-- The inspected form of a node. -/
def inspectNode (h : Heap) (n : Node) : Printed String := (h.printer 2).inspectNode n

/-- The inspected form of what a reference names. -/
def inspectName (h : Heap) (name : AccessedName) : Printed String := do
  let inner ← match name with
    | .virtual resolver => pure (h.typeName resolver)
    | .ordinary v | .binding v => h.inspect v
  return name.kind ++ "<" ++ inner ++ ">"

/-- The rendered form of a node. -/
def renderNode (h : Heap) (width level : Int) (n : Node) : Printed Value :=
  (h.printer width).renderNode width level n

end Heap

end ChainScript
