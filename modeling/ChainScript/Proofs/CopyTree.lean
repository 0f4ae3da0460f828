import Mathlib.Data.List.Forall2
import Mathlib.Data.List.Perm.Subperm
import ChainScript.Proofs.HeapCopy
import ChainScript.Proofs.ReadAlike
import ChainScript.Proofs.Step

/-!
# Reading trees from copies

A raw tree is read from the heap and then into a program node. Both steps look at values without
asking where they stand, so the tree of a copy is the renamed tree, and it denotes the renamed node
or is faulty for the renamed reason.

Reading is bounded by the size of the heap, which differs between a heap and one that holds a copy
of it. `Heap.treeWithin_eq` says why the bound does not matter: a branch that is opened is never
opened again inside itself, so reading opens at most as many branches inside one another as there
are objects.
-/

namespace ChainScript

variable {ρ : Renaming}

namespace Tree

mutual

/-- The tree with every object in it renamed. -/
def renamed (ρ : Renaming) : Tree → Tree
  | .leaf v => .leaf (rename ρ v)
  | .list self items => .list (rename ρ self) (renamedAll ρ items)
  | .dict self entries => .dict (rename ρ self) (renamedEntries ρ entries)
  | .iterable self items => .iterable (rename ρ self) (renamedAll ρ items)

/-- The trees with every object in them renamed. -/
def renamedAll (ρ : Renaming) : List Tree → List Tree
  | [] => []
  | t :: ts => t.renamed ρ :: renamedAll ρ ts

/-- The entries of a dictionary with every object in them renamed. -/
def renamedEntries (ρ : Renaming) : List (Value × Tree) → List (Value × Tree)
  | [] => []
  | (key, t) :: rest => (rename ρ key, t.renamed ρ) :: renamedEntries ρ rest

end

instance : Renamed Tree := ⟨Tree.renamed⟩

/-- Trees in a row are renamed one by one. -/
theorem renamedAll_eq (ts : List Tree) : renamedAll ρ ts = ts.map (rename ρ) := by
  induction ts with
  | nil => rfl
  | cons t ts ih => rw [renamedAll, ih]; rfl

/-- The entries of a dictionary are renamed one by one. -/
theorem renamedEntries_eq (entries : List (Value × Tree)) :
    renamedEntries ρ entries = entries.map (rename ρ) := by
  induction entries with
  | nil => rfl
  | cons entry rest ih => rw [renamedEntries, ih]; rfl

/-- A leaf is renamed in its value. -/
@[simp] theorem rename_leaf (v : Value) : rename ρ (leaf v) = leaf (rename ρ v) := rfl

/-- A list of trees is renamed item by item. -/
@[simp] theorem rename_listTree (self : Value) (items : List Tree) :
    rename ρ (list self items) = list (rename ρ self) (items.map (rename ρ)) := by
  rw [← renamedAll_eq]; rfl

/-- A dictionary of trees is renamed entry by entry. -/
@[simp] theorem rename_dict (self : Value) (entries : List (Value × Tree)) :
    rename ρ (dict self entries) = dict (rename ρ self) (entries.map (rename ρ)) := by
  rw [← renamedEntries_eq]; rfl

/-- What else gives trees is renamed item by item. -/
@[simp] theorem rename_iterable (self : Value) (items : List Tree) :
    rename ρ (iterable self items) = iterable (rename ρ self) (items.map (rename ρ)) := by
  rw [← renamedAll_eq]; rfl

end Tree

/-! ## From the heap -/

namespace Heap

variable {h h' : Heap}

/-- Different objects of a heap are no more than there are objects. -/
theorem length_le_size (h : Heap) {around : List ObjectId} (hnodup : around.Nodup)
    (haround : ∀ id ∈ around, id < h.size) : around.length ≤ h.size := by
  have hsub : around ⊆ List.range h.size := fun id hid => List.mem_range.mpr (haround id hid)
  simpa using (List.subperm_of_subset hnodup hsub).length_le

/-- Reading to any depth that allows for every object that is not around already comes to the same
tree. -/
theorem treeWithin_eq (h : Heap) {around : List ObjectId} (hnodup : around.Nodup)
    (haround : ∀ id ∈ around, id < h.size) {d e : Nat} (hd : h.size < d + around.length)
    (he : h.size < e + around.length) (v : Value) :
    h.treeWithin d around v = h.treeWithin e around v := by
  induction d generalizing e around v with
  | zero =>
    have hroom := h.length_le_size hnodup haround
    omega
  | succ d ih =>
    cases e with
    | zero =>
      have hroom := h.length_le_size hnodup haround
      omega
    | succ e =>
      cases v with
      | object id =>
        rw [treeWithin, treeWithin]
        by_cases hid : id ∈ around
        · simp only [List.contains_iff_mem, hid, if_true]
        · simp only [List.contains_iff_mem, hid, if_false]
          -- What is opened is around the branches inside it, and was not around before.
          have hopen : ∀ o, h.object? id = some o →
              h.treeWithin d (id :: around) = h.treeWithin e (id :: around) := by
            intro o ho
            funext w
            refine ih (List.nodup_cons.mpr ⟨hid, hnodup⟩) ?_ ?_ ?_ w
            · intro j hj
              rcases List.mem_cons.mp hj with rfl | hj
              · exact lt_size_of_object? ho
              · exact haround j hj
            · rw [List.length_cons]
              omega
            · rw [List.length_cons]
              omega
          cases ho : h.object? id with
          | none => rfl
          | some o => cases o <;> simp only [hopen _ ho]
      | _ =>
        rw [treeWithin, treeWithin] <;> exact fun _ heq => nomatch heq

/-- The tree of a copy is the renamed tree, to every depth. -/
theorem Copy.treeWithin (hh : h.Copy ρ h') (depth : Nat) (around : List ObjectId) (v : Value) :
    h'.treeWithin depth (around.map ρ) (rename ρ v) = rename ρ (h.treeWithin depth around v) := by
  induction depth generalizing around v with
  | zero => simp only [Heap.treeWithin, Tree.rename_leaf]
  | succ depth ih =>
    cases v with
    | object id =>
      have hc := hh.object? id
      have hitems : ∀ items : List Value,
          (items.map (rename ρ)).map (h'.treeWithin depth (ρ id :: around.map ρ))
            = (items.map (h.treeWithin depth (id :: around))).map (rename ρ) := by
        intro items
        rw [List.map_map, List.map_map]
        exact List.map_congr_left fun v _ => ih (id :: around) v
      have haround : (around.map ρ).contains (ρ id) = around.contains id := by
        simp
      rw [rename_object, Heap.treeWithin, Heap.treeWithin, haround]
      split
      · rfl
      · revert hc
        generalize h.object? id = o, h'.object? (ρ id) = o'
        rintro (⟨hc⟩ | _)
        · cases hc with
          | list items => simp only [hitems, Tree.rename_listTree, rename_object]
          | tuple items => simp only [hitems, Tree.rename_iterable, rename_object]
          | dict entries =>
            have hentries := fun slot : Slot => ih (id :: around) slot.value
            simp only [List.map_cons] at hentries
            simp [Function.comp_def, hentries]
          | proxy entries => simp [Function.comp_def]
          | record kind slots parent frozen => simp [Function.comp_def]
          | store entries => simp [Function.comp_def]
          | _ => rfl
        · rfl
    | _ =>
      rw [Heap.treeWithin, Heap.treeWithin] <;> first | rfl | exact fun _ heq => nomatch heq

/-- The tree that a copy is read as is the renamed tree. -/
theorem Copy.readTree (hh : h.Copy ρ h') (v : Value) :
    h'.readTree (rename ρ v) = rename ρ (h.readTree v) := by
  have hdepth : h.readTree v = h.treeWithin (h.size + h'.size + 1) [] v :=
    h.treeWithin_eq .nil (by simp) (by simp) (by rw [List.length_nil]; omega) v
  have hdepth' : h'.readTree (rename ρ v) = h'.treeWithin (h.size + h'.size + 1) [] (rename ρ v) :=
    h'.treeWithin_eq .nil (by simp) (by simp) (by rw [List.length_nil]; omega) (rename ρ v)
  rw [hdepth, hdepth']
  exact hh.treeWithin _ [] v

end Heap

/-! ## To nodes -/

/-- A list with the renamed item in each place is the renamed list. -/
theorem eq_map_of_forall₂ {α : Type} [Renamed α] {as bs : List α}
    (h : List.Forall₂ (fun a b => b = rename ρ a) as bs) : bs = as.map (rename ρ) := by
  induction h with
  | nil => rfl
  | cons hab _ ih => rw [hab, ih, List.map_cons]

/-- Results that are related if the second one is the first one renamed. -/
def Likeness.renamed (ρ : Renaming) : Likeness where
  value v v' := v' = rename ρ v
  place l l' := l' = rename ρ l
  source v v' := v' = rename ρ v
  node n n' := n' = rename ρ n
  fault e e' := e' = rename ρ e
  literal hv hl := by rw [hv, hl, Node.rename_literal]
  undefined hl := by rw [hl]; rfl
  identifier hv hl := by rw [hv, hl, Node.rename_identifier]
  member ha hv hl := by rw [ha, hv, hl, Node.rename_member]
  index ha hb hl := by rw [ha, hb, hl, Node.rename_index]
  chain ha hb hl := by rw [ha, hb, hl, Node.rename_chain]
  superMember hv hl := by rw [hv, hl, Node.rename_superMember]
  assign ha hb hl := by rw [ha, hb, hl, Node.rename_assign]
  delete ha hl := by rw [ha, hl, Node.rename_delete]
  call ha hns hl := by rw [ha, eq_map_of_forall₂ hns, hl, Node.rename_call]
  objectLiteral hps hl := by
    have hps := hps.imp fun p p' h => (Prod.ext h.1 h.2 : p' = rename ρ p)
    rw [eq_map_of_forall₂ hps, hl, Node.rename_objectLiteral]
  program _ _ _ hns hl := by rw [eq_map_of_forall₂ hns, hl, Node.rename_program]
  list hns := by rw [eq_map_of_forall₂ hns, Node.rename_listNode]
  notOneChild tag count := (rename_notOneChild ρ tag count).symm
  notTwoOperands tag count := (rename_notTwoOperands ρ tag count).symm
  notOneOperand := rfl
  noCallee := rfl
  notProperty hv := by rw [hv]; rfl
  unknownTag hv := by rw [hv]; rfl

namespace Tree

/-- Two readings come to related results, or fail for the same reason. -/
abbrev Reads {α β : Type} (ρ : Renaming) (R : α → β → Prop) :
    Except TreeFault α → Except TreeFault β → Prop :=
  Alongside (Likeness.renamed ρ).fault R

/-! ### Fields -/

section

variable (entries : List (Value × Tree)) (name : String)

/-- The value that a renamed tree stands for is the renamed value. -/
@[simp] theorem toValue_rename (t : Tree) : (rename ρ t).toValue = rename ρ t.toValue := by
  cases t <;> simp [toValue]

/-- A field of renamed entries is the renamed field. -/
@[simp] theorem field?_rename :
    field? (entries.map (rename ρ)) name = (field? entries name).map (rename ρ) := by
  unfold field?
  induction entries with
  | nil => rfl
  | cons entry rest ih =>
    have hkey : (rename ρ entry.1 == Value.str name) = (entry.1 == Value.str name) := by
      rw [Bool.eq_iff_iff, beq_iff_eq, beq_iff_eq]
      exact rename_eq_iff ρ rfl
    rw [List.map_cons, List.find?_cons, List.find?_cons, fst_rename, hkey]
    split
    · rfl
    · exact ih

/-- The value of a field of renamed entries is the renamed value. -/
@[simp] theorem fieldValue_rename :
    fieldValue (entries.map (rename ρ)) name = rename ρ (fieldValue entries name) := by
  unfold fieldValue
  rw [field?_rename]
  cases field? entries name <;> simp

/-- Renamed entries have the same tag. -/
@[simp] theorem tag?_rename : tag? (entries.map (rename ρ)) = tag? entries := by
  unfold tag?
  rw [fieldValue_rename]
  cases fieldValue entries "tag" <;> rfl

/-- A renamed tree has the same tag. -/
@[simp] theorem tagOf?_rename (t : Tree) : (rename ρ t).tagOf? = t.tagOf? := by
  cases t <;> simp [tagOf?]

/-- A renamed leaf is empty where the leaf is. -/
@[simp] theorem isEmptyLeaf_rename (v : Value) : isEmptyLeaf (rename ρ v) = isEmptyLeaf v := by
  cases v <;> rfl

/-- The place in the text that renamed entries give is the renamed place. -/
@[simp] theorem location?_rename :
    location? (entries.map (rename ρ)) = rename ρ (location? entries) := by
  unfold location?
  simp only [fieldValue_rename]
  generalize fieldValue entries "line" = line, fieldValue entries "col" = col
  cases line <;> cases col <;> rfl

/-- The text of renamed entries is read as the renamed text. -/
theorem reads_text : Reads ρ (fun v v' => v' = rename ρ v) (text entries)
    (text (entries.map (rename ρ))) := by
  unfold text
  rw [field?_rename]
  cases field? entries "text" with
  | none => exact .error rfl
  | some t => exact .ok (toValue_rename t)

/-- So is their number. -/
theorem reads_number (self : Value) : Reads ρ (fun v v' => v' = rename ρ v) (number self entries)
    (number (rename ρ self) (entries.map (rename ρ))) := by
  unfold number
  rw [field?_rename, fieldValue_rename]
  cases field? entries "value" with
  | some t => exact .ok (toValue_rename t)
  | none =>
    cases fieldValue entries "text" with
    | str s =>
      dsimp only [Option.map_none, rename_str]
      split
      · exact .ok rfl
      · exact .ok rfl
      · exact .error rfl
    | _ => exact .error rfl

end

/-- So is the name that their text gives. -/
theorem reads_textName (self : Value) (entries : List (Value × Tree)) :
    Reads ρ (fun v v' => v' = rename ρ v) (textName self entries)
      (textName (rename ρ self) (entries.map (rename ρ))) := by
  unfold textName
  rw [fieldValue_rename]
  cases fieldValue entries "text" with
  | null => exact .error rfl
  | _ => exact .ok rfl

/-- So is the name that a tree gives. -/
theorem reads_nameValue (t : Tree) : Reads ρ (fun v v' => v' = rename ρ v) (nameValue t)
    (nameValue (rename ρ t)) := by
  cases t with
  | leaf v =>
    cases v with
    | str s => exact .ok rfl
    | _ => exact .error rfl
  | list self items | iterable self items => 
    simp only [rename_listTree, rename_iterable]
    exact .error rfl
  | dict self entries =>
    rw [rename_dict]
    unfold nameValue
    simp only [tag?_rename, field?_rename]
    split
    · rename_i v htag hvalue
      simp only [htag, hvalue, Option.map_some]
      exact .ok (toValue_rename v)
    · rename_i hnone
      split
      · rename_i htag hvalue
        obtain ⟨v, hv, -⟩ := Option.map_eq_some_iff.mp hvalue
        exact (hnone v htag hv).elim
      · exact reads_textName self entries

/-! ### Operands -/

/-- The operands of renamed entries are the renamed operands. -/
theorem operandTrees_rename (entries : List (Value × Tree)) :
    operandTrees (entries.map (rename ρ)) = (operandTrees entries).map (List.map (rename ρ)) := by
  unfold operandTrees
  rw [field?_rename]
  cases field? entries "children" with
  | none => rfl
  | some t =>
    cases t with
    | leaf v =>
      simp only [Option.map_some, rename_leaf, isEmptyLeaf_rename]
      split
      · rfl
      · cases v with
        | str s => simp [Except.map]
        | _ => rfl
    | dict self named => simp [Except.map, Function.comp_def]
    | list self items | iterable self items => simp [Except.map]

/-- Their statements are the renamed statements. -/
theorem statementTrees_rename (entries : List (Value × Tree)) :
    statementTrees (entries.map (rename ρ))
      = (statementTrees entries).map (List.map (rename ρ)) := by
  unfold statementTrees
  rw [field?_rename]
  cases field? entries "children" with
  | none => rfl
  | some t =>
    cases t with
    | leaf v => cases v <;> simp [Except.map]
    | dict self named => simp [Except.map, Function.comp_def]
    | list self items | iterable self items => simp [Except.map]

/-! ### Directives and comments -/

/-- A renamed tree is no part of the program where the tree is none. -/
@[simp] theorem isAside_rename (t : Tree) : (rename ρ t).isAside = t.isAside := by
  simp [isAside, isDirective, isComment]

/-- A renamed tree asks for strictness where the tree does. -/
@[simp] theorem isStrictDirective_rename (t : Tree) :
    (rename ρ t).isStrictDirective = t.isStrictDirective := by
  have htext : ∀ (v : Value) (s : String), (rename ρ v == Value.str s) = (v == Value.str s) := by
    intro v s
    rw [Bool.eq_iff_iff, beq_iff_eq, beq_iff_eq]
    exact rename_eq_iff ρ rfl
  cases t with
  | dict self entries =>
    rw [rename_dict]
    simp only [isStrictDirective, tag?_rename, fieldValue_rename, htext]
  | list self items => rw [rename_listTree]; rfl
  | iterable self items => rw [rename_iterable]; rfl
  | leaf v => rfl

/-- What is left of renamed trees without noise is what is left of the trees, renamed. -/
theorem bodyTrees_rename (ts : List Tree) :
    bodyTrees (ts.map (rename ρ)) = (bodyTrees ts).map (rename ρ) := by
  rw [bodyTrees, List.filter_map]
  simp only [Function.comp_def, isAside_rename]
  rfl

/-- Renamed trees ask for strictness where the trees do. -/
theorem strictTrees_rename (ts : List Tree) : strictTrees (ts.map (rename ρ)) = strictTrees ts := by
  rw [strictTrees, List.takeWhile_map, List.any_map]
  simp only [Function.comp_def, isAside_rename, isStrictDirective_rename]
  rfl

/-! ### Nodes -/

/-- The fields of renamed entries are alike to those of the entries. -/
theorem fields_rename (self : Value) (entries : List (Value × Tree)) :
    (Likeness.renamed ρ).Fields self (rename ρ self) entries (entries.map (rename ρ)) where
  source := rfl
  tag := tag?_rename entries
  tagValue := fieldValue_rename entries "tag"
  typed := fieldValue_rename entries "value"
  text := reads_text entries
  number := reads_number entries self
  name := by
    have hname := reads_nameValue (ρ := ρ) (.dict self entries)
    rwa [rename_dict] at hname
  place := location?_rename entries

/-- A tree and the renamed tree are related in every part that they can play. -/
theorem plays_rename (t : Tree) : (Likeness.renamed ρ).Plays t (rename ρ t) := by
  cases t with
  | leaf v =>
    have hname := reads_nameValue (ρ := ρ) (.leaf v)
    rw [rename_leaf] at hname ⊢
    refine Likeness.plays_plain (fun _ _ => nofun) (fun _ _ => nofun) ?_ hname rfl
    unfold Likeness.Denotes
    rw [toNode_leaf, toNode_leaf]
    exact .ok rfl
  | iterable self items =>
    have hname := reads_nameValue (ρ := ρ) (.iterable self items)
    rw [rename_iterable] at hname ⊢
    refine Likeness.plays_plain (fun _ _ => nofun) (fun _ _ => nofun) ?_ hname rfl
    unfold Likeness.Denotes
    rw [toNode_iterable, toNode_iterable]
    exact .ok rfl
  | list self items =>
    have hname := reads_nameValue (ρ := ρ) (.list self items)
    rw [rename_listTree] at hname ⊢
    refine Likeness.plays_plain (fun _ _ => nofun) (fun _ _ => nofun)
      (Likeness.denotes_list ?_) hname rfl
    refine List.forall₂_map_right_iff.mpr (List.forall₂_same.mpr fun t ht => ?_)
    have hlt := Nat.lt_succ_of_le (height_le_heightAll ht)
    exact (plays_rename t).denotes
  | dict self entries =>
    rw [rename_dict]
    -- Operands and statements are less high than the dictionary. They are read apart: children that
    -- stand under names are operands themselves, but their names are the statements.
    refine Likeness.plays_dict (fields_rename self entries) ?_ fun _ => ?_
    · rw [operandTrees_rename]
      cases hts : operandTrees entries with
      | error e => exact .error (by rw [operandTrees_error hts]; rfl)
      | ok ts =>
        refine .ok (List.forall₂_map_right_iff.mpr (List.forall₂_same.mpr fun t ht => ?_))
        have hlt := height_lt_of_operandTrees hts ht
        exact plays_rename t
    · rw [statementTrees_rename]
      cases hts : statementTrees entries with
      | error e => exact .error (by rw [statementTrees_error hts]; rfl)
      | ok ts =>
        refine .ok ⟨?_, (strictTrees_rename ts).symm⟩
        rw [bodyTrees_rename]
        refine List.forall₂_map_right_iff.mpr (List.forall₂_same.mpr fun t ht => ?_)
        have hlt := height_lt_of_statementTrees hts (List.mem_of_mem_filter ht)
        exact (plays_rename t).denotes
termination_by t.height

/-- A renamed tree denotes the renamed node, or is faulty for the renamed reason. -/
theorem reads_toNode (t : Tree) :
    Reads ρ (fun n n' => n' = rename ρ n) (toNode t) (toNode (rename ρ t)) :=
  (plays_rename t).denotes

end Tree

end ChainScript
