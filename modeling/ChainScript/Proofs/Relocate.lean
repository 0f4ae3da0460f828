import ChainScript.Proofs.ReadAlike

/-!
# Nodes but for their places

Trees that say the same may stand in different places. `Node.relocate` moves every node of a
program, and `Likeness.upTo` relates nodes that a move makes equal: where the move leaves all places
as they are these are equal nodes, and where it forgets the places they are nodes of the same kinds
with the same contents. Dictionaries with the same tag, text and value have the same literals and
names (`Likeness.fields_upTo`).
-/

namespace ChainScript

namespace Node

mutual

/-- The node with its place and the places of all nodes in it moved. -/
def relocate (f : Option Location → Option Location) : Node → Node
  | .literal v loc => .literal v (f loc)
  | .identifier name loc => .identifier name (f loc)
  | .member obj name loc => .member (obj.relocate f) name (f loc)
  | .index obj key loc => .index (obj.relocate f) (key.relocate f) (f loc)
  | .chain obj resolver loc => .chain (obj.relocate f) (resolver.relocate f) (f loc)
  | .superMember name loc => .superMember name (f loc)
  | .assign target v loc => .assign (target.relocate f) (v.relocate f) (f loc)
  | .delete target loc => .delete (target.relocate f) (f loc)
  | .call callee args loc => .call (callee.relocate f) (relocateAll f args) (f loc)
  | .objectLiteral entries loc => .objectLiteral (relocateEntries f entries) (f loc)
  | .program body strict loc => .program (relocateAll f body) strict (f loc)
  | .other kind loc => .other kind (f loc)
  | .value v => .value v
  | .list items => .list (relocateAll f items)

/-- The nodes with the places in them moved. -/
def relocateAll (f : Option Location → Option Location) : List Node → List Node
  | [] => []
  | n :: ns => n.relocate f :: relocateAll f ns

/-- The entries of an object literal with the places in them moved. -/
def relocateEntries (f : Option Location → Option Location) :
    List (Value × Node) → List (Value × Node)
  | [] => []
  | (name, n) :: rest => (name, n.relocate f) :: relocateEntries f rest

end

/-- The node without any places. -/
def unplaced (n : Node) : Node := n.relocate fun _ => none

section

variable {f : Option Location → Option Location}

/-- Nodes in a row that are the same up to their places are so together. -/
theorem relocateAll_eq_of_forall₂ {ns ns' : List Node}
    (h : List.Forall₂ (fun n n' => n.relocate f = n'.relocate f) ns ns') :
    relocateAll f ns = relocateAll f ns' := by
  induction h with
  | nil => rfl
  | cons hn _ ih => rw [relocateAll, relocateAll, hn, ih]

/-- So are entries with the same names. -/
theorem relocateEntries_eq_of_forall₂ {ps ps' : List (Value × Node)}
    (h : List.Forall₂ (fun p p' => p.1 = p'.1 ∧ p.2.relocate f = p'.2.relocate f) ps ps') :
    relocateEntries f ps = relocateEntries f ps' := by
  induction h with
  | nil => rfl
  | cons hp _ ih => rw [relocateEntries, relocateEntries, hp.1, hp.2, ih]

end

mutual

/-- Leaving places as they are leaves a node as it is. -/
@[simp] theorem relocate_id : ∀ n : Node, n.relocate id = n
  | .literal .. | .identifier .. | .superMember .. | .other .. | .value .. => rfl
  | .member obj _ _ => by rw [relocate, relocate_id obj, id]
  | .index obj key _ => by rw [relocate, relocate_id obj, relocate_id key, id]
  | .chain obj resolver _ => by rw [relocate, relocate_id obj, relocate_id resolver, id]
  | .assign target v _ => by rw [relocate, relocate_id target, relocate_id v, id]
  | .delete target _ => by rw [relocate, relocate_id target, id]
  | .call callee args _ => by rw [relocate, relocate_id callee, relocateAll_id args, id]
  | .objectLiteral entries _ => by rw [relocate, relocateEntries_id entries, id]
  | .program body _ _ => by rw [relocate, relocateAll_id body, id]
  | .list items => by rw [relocate, relocateAll_id items]

/-- It leaves nodes in a row as they are. -/
@[simp] theorem relocateAll_id : ∀ ns : List Node, relocateAll id ns = ns
  | [] => rfl
  | n :: ns => by rw [relocateAll, relocate_id n, relocateAll_id ns]

/-- It leaves entries as they are. -/
@[simp] theorem relocateEntries_id : ∀ ps : List (Value × Node), relocateEntries id ps = ps
  | [] => rfl
  | (_, n) :: rest => by rw [relocateEntries, relocate_id n, relocateEntries_id rest]

end

end Node

namespace Likeness

/-- Values are related if they are equal, nodes if the move makes them equal, and faults if they are
of one kind. -/
def upTo (f : Option Location → Option Location) : Likeness where
  value v v' := v = v'
  place l l' := f l = f l'
  source _ _ := True
  node n n' := n.relocate f = n'.relocate f
  fault e e' := e.kind = e'.kind
  literal hv hl := by rw [Node.relocate, Node.relocate, hv, hl]
  undefined hl := by rw [Node.relocate, Node.relocate, hl]
  identifier hv hl := by rw [Node.relocate, Node.relocate, hv, hl]
  member ha hv hl := by rw [Node.relocate, Node.relocate, ha, hv, hl]
  index ha hb hl := by rw [Node.relocate, Node.relocate, ha, hb, hl]
  chain ha hb hl := by rw [Node.relocate, Node.relocate, ha, hb, hl]
  superMember hv hl := by rw [Node.relocate, Node.relocate, hv, hl]
  assign ha hb hl := by rw [Node.relocate, Node.relocate, ha, hb, hl]
  delete ha hl := by rw [Node.relocate, Node.relocate, ha, hl]
  call ha hns hl := by
    rw [Node.relocate, Node.relocate, ha, Node.relocateAll_eq_of_forall₂ hns, hl]
  objectLiteral hps hl := by
    rw [Node.relocate, Node.relocate, Node.relocateEntries_eq_of_forall₂ hps, hl]
  program _ _ _ hns hl := by
    rw [Node.relocate, Node.relocate, Node.relocateAll_eq_of_forall₂ hns, hl]
  list hns := by rw [Node.relocate, Node.relocate, Node.relocateAll_eq_of_forall₂ hns]
  notOneChild _ _ := rfl
  notTwoOperands _ _ := rfl
  notOneOperand := rfl
  noCallee := rfl
  notProperty _ := rfl
  unknownTag _ := rfl

end Likeness

/-! ## Fields -/

namespace Tree

/-- Dictionaries with the same value under a name, or without one. -/
def Agree (entries entries' : List (Value × Tree)) (name : String) : Prop :=
  (field? entries name).map toValue = (field? entries' name).map toValue

/-- Dictionaries with the same tag, text and value. -/
structure SameText (entries entries' : List (Value × Tree)) : Prop where
  tag : Agree entries entries' "tag"
  text : Agree entries entries' "text"
  value : Agree entries entries' "value"

section

variable {self self' : Value} {entries entries' : List (Value × Tree)}

/-- A field that entries agree in has the same value in both. -/
theorem Agree.fieldValue_eq {name : String} (h : Agree entries entries' name) :
    fieldValue entries name = fieldValue entries' name := by
  rw [fieldValue, fieldValue, h]

/-- Entries with the same text have the same tag. -/
theorem SameText.tag?_eq (h : SameText entries entries') : tag? entries = tag? entries' := by
  rw [tag?, tag?, h.tag.fieldValue_eq]

/-- They both ask for strictness, or neither does. -/
theorem SameText.isStrictDirective_eq (h : SameText entries entries') :
    (dict self entries).isStrictDirective = (dict self' entries').isStrictDirective := by
  rw [isStrictDirective, isStrictDirective, h.tag?_eq, h.text.fieldValue_eq]

/-- Reading a field comes to the same where the field does. -/
theorem Agree.alongside {α : Type} {name : String} {E : TreeFault → TreeFault → Prop}
    {R : α → α → Prop} (h : Agree entries entries' name) {found : Value → Except TreeFault α}
    {missing missing' : Except TreeFault α} (hfound : ∀ v, Alongside E R (found v) (found v))
    (hmissing : Alongside E R missing missing') :
    Alongside E R
      (match field? entries name with | some t => found t.toValue | none => missing)
      (match field? entries' name with | some t => found t.toValue | none => missing') := by
  unfold Agree at h
  cases hfield : field? entries name <;> cases hfield' : field? entries' name <;>
    rw [hfield, hfield'] at h
  · exact hmissing
  · cases h
  · cases h
  · injection h with h
    simp only [h]
    exact hfound _

/-- Whether a tree is a statement hangs on its tag alone. -/
theorem isAside_congr {t t' : Tree} (h : t.tagOf? = t'.tagOf?) : t.isAside = t'.isAside := by
  rw [isAside, isAside, isDirective, isDirective, isComment, isComment, h]

/-- They are both part of the program, or neither is. -/
theorem SameText.isAside_eq (h : SameText entries entries') :
    (dict self entries).isAside = (dict self' entries').isAside :=
  isAside_congr h.tag?_eq

/-- They give the same name, or both are refused as one. -/
theorem textName_upTo (htext : Agree entries entries' "text") :
    Alongside (fun e e' => e.kind = e'.kind) (· = ·) (textName self entries)
      (textName self' entries') := by
  unfold textName
  rw [← htext.fieldValue_eq]
  split
  · exact .error rfl
  · exact .ok rfl

end

end Tree

namespace Likeness

open ChainScript.Tree

variable {f : Option Location → Option Location} {self self' : Value}
  {entries entries' : List (Value × Tree)}

/-- The fields of dictionaries are related if tag, text and value are the same and the move makes
the places equal. -/
theorem fields_upTo (hsame : SameText entries entries')
    (hplace : f (location? entries) = f (location? entries')) :
    (upTo f).Fields self self' entries entries' where
  source := trivial
  tag := hsame.tag?_eq.symm
  tagValue := hsame.tag.fieldValue_eq
  typed := hsame.value.fieldValue_eq
  text := hsame.text.alongside (fun v => .ok rfl) (.error rfl)
  number := by
    refine hsame.value.alongside (fun v => .ok rfl) ?_
    rw [← hsame.text.fieldValue_eq]
    split
    · rename_i s hs
      split
      · exact .ok rfl
      · exact .ok rfl
      · exact .error rfl
    · exact .error rfl
  name := by
    unfold Names
    by_cases htag : tag? entries = some "number"
    · rw [nameValue_number htag, nameValue_number (hsame.tag?_eq ▸ htag)]
      exact hsame.value.alongside (fun v => .ok rfl) (textName_upTo hsame.text)
    · rw [nameValue_other htag, nameValue_other (hsame.tag?_eq ▸ htag)]
      exact textName_upTo hsame.text
  place := hplace

/-- A reading goes along with itself if its results are related to themselves. -/
theorem alongside_refl {α : Type} {R : α → α → Prop} (hR : ∀ a, R a a) (x : Except TreeFault α) :
    Alongside (upTo f).fault R x x :=
  Alongside.refl (E := (upTo f).fault) (fun _ => rfl) hR x

/-- A tree denotes what it denotes, up to places. -/
theorem denotes_refl (t : Tree) : (upTo f).Denotes t t :=
  alongside_refl (R := (upTo f).node) (fun _ => rfl) _

/-- A body is the body that it is, up to places. -/
theorem bodies_refl (ts : List Tree) : (upTo f).Bodies ts ts :=
  ⟨List.forall₂_same.mpr fun t _ => denotes_refl t, rfl⟩

/-- A tree is related to itself in every part. -/
theorem plays_refl (t : Tree) : (upTo f).Plays t t where
  denotes := denotes_refl t
  names := alongside_refl (fun _ => rfl) _
  properties := alongside_refl (fun _ => ⟨rfl, rfl⟩) _
  arguments := alongside_refl (fun _ => List.forall₂_same.mpr fun t _ => denotes_refl t) _

/-- Dictionaries with the same tag, text, value and children are related in every part if the move
makes their places equal. -/
theorem plays_of_children (hsame : SameText entries entries')
    (hplace : f (location? entries) = f (location? entries'))
    (hchildren : field? entries "children" = field? entries' "children") :
    (upTo f).Plays (.dict self entries) (.dict self' entries') := by
  have hoperands : operandTrees entries = operandTrees entries' := by
    rw [operandTrees, operandTrees, hchildren]
  have hstatements : statementTrees entries = statementTrees entries' := by
    rw [statementTrees, statementTrees, hchildren]
  refine plays_dict (fields_upTo hsame hplace) ?_ fun _ => ?_
  · rw [hoperands]
    exact alongside_refl (fun _ => List.forall₂_same.mpr fun t _ => plays_refl t) _
  · rw [hstatements]
    exact alongside_refl bodies_refl _

end Likeness

end ChainScript
