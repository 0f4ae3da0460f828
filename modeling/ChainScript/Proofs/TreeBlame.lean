import ChainScript.Proofs.EntryPoints
import ChainScript.Proofs.Legible
import ChainScript.Proofs.Reading

/-!
# What is wrong with a tree

Where a tree denotes no node, a part of it is to blame: by `Tree.fails_toNode`, every fault is one
that a part of the tree has. Most faults are the transformer's own: a wrong number of operands, a
thing in the place of a name, a number that is none, a tag that nothing is known of. Two are not. A
string or an identifier has to have a text, and the children of a program have to be something that
can be gone through; without these the reading ends with a missing key or with a wrong type.

The message of a fault may show the part that is to blame. `Heap.Data` holds of what a text of data
holds: plain values, lists, and dictionaries with texts for keys. Everything in it can be shown, and
so `transform_rejects_by_culprit` says how transforming data can end.
-/

namespace ChainScript

namespace Tree

/-! ## Parts and faults -/

/-- The parts of a tree that are read as a part of it: the tree itself, the items of a list, and the
operands of a dictionary. -/
inductive Part (s : Tree) : Tree → Prop
  | self : Part s s
  | item {self : Value} {items : List Tree} {t : Tree} (ht : t ∈ items) (hs : Part s t) :
    Part s (.list self items)
  | operand {self : Value} {entries : List (Value × Tree)} {ts : List Tree} {t : Tree}
    (hts : operandTrees entries = .ok ts) (ht : t ∈ ts) (hs : Part s t) :
    Part s (.dict self entries)

/-- A string or an identifier without a text. -/
def LacksText : Tree → Prop
  | .dict _ entries =>
    (∃ tag ∈ ["string", "identifier", "name"], tag? entries = some tag) ∧ field? entries "text" = none
  | _ => False

/-- A node with children that cannot be gone through. What counts as empty is no child, but not to a
program. -/
def Unreadable : Tree → Prop
  | .dict _ entries => ∃ v, field? entries "children" = some (.leaf v) ∧ (∀ s, v ≠ .str s) ∧
      (tag? entries = some "program" ∨ isEmptyLeaf v = false)
  | _ => False

/-- What a part can be blamed for. A fault that shows something shows the part or its tag. -/
def Blames (s : Tree) : TreeFault → Prop
  | .noNumberText v | .notProperty v | .notName v => v = s.toValue
  | .unknownTag v => ∃ self entries, s = .dict self entries ∧ v = fieldValue entries "tag"
  | .missingText => s.LacksText
  | .notIterable => s.Unreadable
  | _ => True

/-- A part of the tree is to blame for the fault. -/
def Blamed (t : Tree) (e : TreeFault) : Prop := ∃ s, Part s t ∧ s.Blames e

/-- A reading that fails only in the ways that the condition allows. -/
def Fails {α : Type} (P : TreeFault → Prop) (x : Except TreeFault α) : Prop := ∀ e, x = .error e → P e

namespace Fails

variable {α β : Type} {P : TreeFault → Prop} {x : Except TreeFault α}

/-- What comes to a value does not fail. -/
theorem ok (a : α) : Fails P (.ok a : Except TreeFault α) := fun _ h => by cases h

/-- A failure fails as is said of it. -/
theorem error {e : TreeFault} (he : P e) : Fails P (.error e : Except TreeFault α) := by
  intro e' h
  cases h
  exact he

/-- What fails at first or afterwards fails as is said of both. -/
theorem bind {f : α → Except TreeFault β} (hx : Fails P x) (hf : ∀ a, x = .ok a → Fails P (f a)) :
    Fails P (x >>= f) := by
  cases x with
  | ok a => exact hf a rfl
  | error e =>
    intro e' h
    cases h
    exact hx e rfl

/-- A failure may be described more loosely. -/
theorem mono {Q : TreeFault → Prop} (hx : Fails P x) (hPQ : ∀ e, P e → Q e) : Fails Q x :=
  fun e h => hPQ e (hx e h)

/-- Items that fail as is said fail so in a row. -/
theorem mapM {f : α → Except TreeFault β} {as : List α} (hf : ∀ a ∈ as, Fails P (f a)) :
    Fails P (as.mapM f) := by
  induction as with
  | nil => exact .ok []
  | cons a as ih =>
    obtain ⟨ha, has⟩ := List.forall_mem_cons.mp hf
    rw [List.mapM_cons]
    exact ha.bind fun b _ => (ih has).bind fun bs _ => .ok (b :: bs)

end Fails

/-- A part of a part is a part. -/
theorem Part.trans {r s t : Tree} (hrs : Part r s) (hst : Part s t) : Part r t := by
  induction hst with
  | self => exact hrs
  | item ht _ ih => exact .item ht ih
  | operand hts ht _ ih => exact .operand hts ht ih

/-- A part of a tree that is not as high as the tree. -/
def Within (s t : Tree) : Prop := Part s t ∧ s.height < t.height

/-- What is within a tree within another is within that. -/
theorem Within.trans {r s t : Tree} (hrs : Within r s) (hst : Within s t) : Within r t :=
  ⟨hrs.1.trans hst.1, Nat.lt_trans hrs.2 hst.2⟩

/-- What a part is to blame for is blamed on it in the whole. -/
theorem Blames.blamed {s t : Tree} {e : TreeFault} (h : s.Blames e) (hs : Part s t) : Blamed t e :=
  ⟨s, hs, h⟩

/-- What is blamed within a part is blamed within the whole. -/
theorem Blamed.trans {s t : Tree} {e : TreeFault} (h : Blamed s e) (hs : Part s t) : Blamed t e := by
  obtain ⟨r, hr, hblames⟩ := h
  exact ⟨r, hr.trans hs, hblames⟩

/-! ## Fields and operands -/

section

variable {self : Value} {entries : List (Value × Tree)}

/-- An operand is within its dictionary. -/
theorem within_operand {ts : List Tree} (hts : operandTrees entries = .ok ts) {t : Tree}
    (ht : t ∈ ts) : Within t (.dict self entries) := by
  refine ⟨.operand hts ht .self, ?_⟩
  rw [height]
  exact height_lt_of_operandTrees hts ht

/-- Operands are missed only for children that cannot be gone through. -/
theorem fails_operandTrees : Fails (dict self entries).Blames (operandTrees entries) := by
  intro e he
  have hfault := operandTrees_error he
  subst hfault
  unfold operandTrees at he
  repeat' split at he
  all_goals cases he
  rename_i v hchildren hempty _ hstr
  exact ⟨v, hchildren, hstr, .inr (Bool.not_eq_true _ ▸ hempty)⟩

/-- Statements fail to the blame of their program. -/
theorem fails_statementTrees (htag : tag? entries = some "program") :
    Fails (dict self entries).Blames (statementTrees entries) := by
  intro e he
  have hfault := statementTrees_error he
  subst hfault
  unfold statementTrees at he
  split at he
  all_goals cases he
  rename_i v hstr hchildren
  exact ⟨v, hchildren, hstr, .inl htag⟩

/-- The statements of a program are its operands, or else names, which are leaves. -/
theorem statementTrees_operands {ts : List Tree} (hts : statementTrees entries = .ok ts) :
    operandTrees entries = .ok ts ∨ ∀ t ∈ ts, ∃ v, t = .leaf v := by
  unfold statementTrees at hts
  unfold operandTrees
  split at hts
  all_goals
    rename_i hchildren
    rw [hchildren]
    cases hts
  · exact .inl rfl
  · refine .inr fun t ht => ?_
    obtain ⟨e, -, rfl⟩ := List.mem_map.mp ht
    exact ⟨e.1, rfl⟩
  · exact .inl rfl
  · exact .inl rfl
  · refine .inr fun t ht => ?_
    obtain ⟨c, -, rfl⟩ := List.mem_map.mp ht
    exact ⟨_, rfl⟩

/-- A name that is no text fails to the blame of its dictionary. -/
theorem fails_textName : Fails (dict self entries).Blames (textName self entries) := by
  unfold textName
  split
  · exact .error rfl
  · exact .ok _

/-- A name fails to the blame of its tree. -/
theorem fails_nameValue (t : Tree) : Fails t.Blames (nameValue t) := by
  cases t with
  | dict self entries =>
    by_cases htag : tag? entries = some "number"
    · rw [nameValue_number htag]
      split
      · exact .ok _
      · exact fails_textName
    · rw [nameValue_other htag]
      exact fails_textName
  | leaf v => cases v <;> first | exact .ok _ | exact .error rfl
  | list self items => exact .error rfl
  | iterable self items => exact .error rfl

/-- A number fails to the blame of its dictionary. -/
theorem fails_number : Fails (dict self entries).Blames (number self entries) := by
  unfold number
  split
  · exact .ok _
  · split
    · split
      · exact .ok _
      · exact .ok _
      · exact .error trivial
    · exact .error rfl

/-- A text that is needed fails to the blame of its dictionary. -/
theorem fails_text {tag : String} (htag : tag? entries = some tag)
    (hneeds : tag ∈ ["string", "identifier", "name"]) :
    Fails (dict self entries).Blames (text entries) := by
  unfold text
  split
  · exact .ok _
  · rename_i hnone
    exact .error ⟨⟨tag, hneeds, htag⟩, hnone⟩

/-! ### Arguments -/

/-- Arguments fail to the blame of the tree that holds them. -/
theorem fails_argumentsOf (t : Tree) : Fails t.Blames (argumentsOf t) := by
  cases t with
  | dict self entries =>
    rw [argumentsOf]
    split
    · exact fails_operandTrees
    · exact .ok _
  | _ => exact .ok _

/-- The arguments that a tree holds are within it. -/
theorem within_argumentsOf {s t : Tree} {here : List Tree} (hs : Within s t)
    (hhere : argumentsOf s = .ok here) : ∀ r ∈ here, Within r t := by
  cases s with
  | dict self entries =>
    rw [argumentsOf] at hhere
    split at hhere
    · exact fun r hr => (within_operand hhere hr).trans hs
    · cases hhere
      exact List.forall_mem_singleton.mpr hs
  | _ =>
    cases hhere
    exact List.forall_mem_singleton.mpr hs

/-- Grouped arguments fail to the blame of a part. -/
theorem fails_argumentTrees {ts : List Tree} {t : Tree} (hts : ∀ s ∈ ts, Within s t) :
    Fails (Blamed t) (argumentTrees ts) := by
  induction ts with
  | nil => exact .ok []
  | cons s ts ih =>
    obtain ⟨hs, hrest⟩ := List.forall_mem_cons.mp hts
    refine ((fails_argumentsOf s).mono fun _ h => h.blamed hs.1).bind fun here _ => ?_
    exact (ih hrest).bind fun others _ => .ok _

/-- Grouped arguments are within the tree that their groups are within. -/
theorem within_argumentTrees {ts args : List Tree} {t : Tree} (hts : ∀ s ∈ ts, Within s t)
    (hargs : argumentTrees ts = .ok args) : ∀ s ∈ args, Within s t := by
  induction ts generalizing args with
  | nil =>
    cases hargs
    exact nofun
  | cons s ts ih =>
    obtain ⟨hs, hrest⟩ := List.forall_mem_cons.mp hts
    rw [argumentTrees] at hargs
    cases hhere : argumentsOf s with
    | error e =>
      rw [hhere] at hargs
      cases hargs
    | ok here =>
      cases hothers : argumentTrees ts with
      | error e =>
        rw [hhere, hothers] at hargs
        cases hargs
      | ok others =>
        rw [hhere, hothers] at hargs
        cases hargs
        exact List.forall_mem_append.mpr ⟨within_argumentsOf hs hhere, ih hrest hothers⟩

end

/-! ## Reading nodes -/

section

variable {self : Value} {entries : List (Value × Tree)}

/-- What all trees within a dictionary are blamed for is blamed on parts of it. -/
def ReadWithin (t : Tree) : Prop := ∀ s, Within s t → Fails (Blamed t) (toNode s)

/-- Operands fail to the blame of a part. -/
theorem fails_operands : Fails (Blamed (dict self entries)) (operandTrees entries) :=
  fails_operandTrees.mono fun _ h => h.blamed .self

/-- So does a node of one operand. -/
theorem fails_soleNode {fault : Nat → TreeFault}
    (hfault : ∀ n, (dict self entries).Blames (fault n)) (hread : ReadWithin (dict self entries)) :
    Fails (Blamed (dict self entries)) (soleNode toNode fault entries) := by
  refine fails_operands.bind fun ts hts => ?_
  rcases ts with _ | ⟨t, _ | ⟨_, _⟩⟩
  · exact .error ((hfault _).blamed .self)
  · exact hread t (within_operand hts List.mem_cons_self)
  · exact .error ((hfault _).blamed .self)

/-- Two operands are missed for no other reason than that there are more or fewer. -/
theorem fails_both {α : Type} {ts : List Tree} {tag : String} {t : Tree}
    {f : Tree × Tree → Except TreeFault α} (hf : ∀ a b, ts = [a, b] → Fails (Blamed t) (f (a, b))) :
    Fails (Blamed t) (both tag ts >>= f) := by
  have hcount : ∀ n, Fails (Blamed t) (.error (.notTwoOperands tag n) : Except TreeFault α) :=
    fun n => .error (Blames.blamed (s := t) trivial .self)
  rcases ts with _ | ⟨a, _ | ⟨b, _ | ⟨c, rest⟩⟩⟩
  · exact hcount 0
  · exact hcount 1
  · exact hf a b rfl
  · exact hcount _

/-- So does a node of two operands. -/
theorem fails_binaryNode {tag : String} {make : Node → Node → Node}
    (hread : ReadWithin (dict self entries)) :
    Fails (Blamed (dict self entries)) (binaryNode toNode tag make entries) := by
  refine fails_operands.bind fun ts hts => fails_both fun a b heq => ?_
  subst heq
  refine (hread a (within_operand hts (by simp))).bind fun _ _ => ?_
  exact (hread b (within_operand hts (by simp))).bind fun _ _ => .ok _

/-- So does the name among operands. -/
theorem fails_name {ts : List Tree} (hts : operandTrees entries = .ok ts) {t : Tree} (ht : t ∈ ts) :
    Fails (Blamed (dict self entries)) (nameValue t) :=
  (fails_nameValue t).mono fun _ h => h.blamed (.operand hts ht .self)

/-- So does a member. -/
theorem fails_memberNode (hread : ReadWithin (dict self entries)) :
    Fails (Blamed (dict self entries)) (memberNode toNode entries) := by
  refine fails_operands.bind fun ts hts => fails_both fun a b heq => ?_
  subst heq
  refine (hread a (within_operand hts (by simp))).bind fun _ _ => ?_
  exact (fails_name hts (by simp)).bind fun _ _ => .ok _

/-- So does a member of the parent. -/
theorem fails_superNode : Fails (Blamed (dict self entries)) (superNode self entries) := by
  refine fails_operands.bind fun ts hts => ?_
  cases ts with
  | nil =>
    have hself := (fails_nameValue (dict self entries)).mono fun _ h => h.blamed .self
    exact hself.bind fun _ _ => .ok _
  | cons t ts => exact (fails_name hts List.mem_cons_self).bind fun _ _ => .ok _

/-- So does a call. -/
theorem fails_callNode (hread : ReadWithin (dict self entries)) :
    Fails (Blamed (dict self entries)) (callNode toNode entries) := by
  refine fails_operands.bind fun ts hts => ?_
  cases ts with
  | nil => exact .error (Blames.blamed (s := dict self entries) trivial .self)
  | cons callee rest =>
    have hrest : ∀ t ∈ rest, Within t (dict self entries) :=
      fun t ht => within_operand hts (List.mem_cons_of_mem _ ht)
    refine (fails_argumentTrees hrest).bind fun args hargs => ?_
    refine (hread callee (within_operand hts List.mem_cons_self)).bind fun _ _ => ?_
    refine (Fails.mapM fun t ht => hread t ?_).bind fun _ _ => .ok _
    exact within_argumentTrees hrest hargs t ht

/-- So does a property. -/
theorem fails_propertyNode {t p : Tree} (hread : ReadWithin t) (hp : Within p t) :
    Fails (Blamed t) (propertyNode toNode p) := by
  have hproperty : Fails (Blamed t) (.error (.notProperty p.toValue) : Except TreeFault (Value × Node)) :=
    .error (Blames.blamed (s := p) rfl hp.1)
  cases p with
  | dict self entries =>
    rw [propertyNode, propertyTrees]
    split
    · rw [bind_assoc]
      refine (fails_operands.mono fun _ h => h.trans hp.1).bind fun ts hts => fails_both fun a b heq => ?_
      subst heq
      refine ((fails_name hts (by simp)).mono fun _ h => h.trans hp.1).bind fun _ _ => ?_
      exact (hread b ((within_operand hts (by simp)).trans hp)).bind fun _ _ => .ok _
    · exact hproperty
  | _ => exact hproperty

/-- So does an object literal. -/
theorem fails_objectNode (hread : ReadWithin (dict self entries)) :
    Fails (Blamed (dict self entries)) (objectNode toNode entries) := by
  refine fails_operands.bind fun ts hts => ?_
  refine (Fails.mapM fun p hp => ?_).bind fun _ _ => .ok _
  exact fails_propertyNode hread (within_operand hts hp)

/-- So does a program. -/
theorem fails_programNode (htag : tag? entries = some "program")
    (hread : ReadWithin (dict self entries)) :
    Fails (Blamed (dict self entries)) (programNode toNode entries) := by
  refine ((fails_statementTrees htag).mono fun _ h => h.blamed .self).bind fun ts hts => ?_
  refine (Fails.mapM fun t ht => ?_).bind fun _ _ => .ok _
  have ht := (List.mem_filter.mp ht).1
  rcases statementTrees_operands hts with hops | hleaves
  · exact hread t (within_operand hops ht)
  · obtain ⟨v, rfl⟩ := hleaves t ht
    rw [toNode_leaf]
    exact .ok _

/-- Whatever is wrong with a tree is wrong with a part of it. -/
theorem fails_toNode (t : Tree) : Fails (Blamed t) (toNode t) := by
  cases t with
  | leaf v =>
    rw [toNode_leaf]
    exact .ok _
  | iterable self items =>
    rw [toNode_iterable]
    exact .ok _
  | list self items =>
    rw [toNode_list]
    refine (Fails.mapM fun t ht => ?_).bind fun _ _ => .ok _
    have hlt := Nat.lt_succ_of_le (height_le_heightAll ht)
    exact (fails_toNode t).mono fun _ h => h.trans (.item ht .self)
  | dict self entries =>
    have hread : ReadWithin (dict self entries) := fun s hs =>
      have hlt := hs.2
      (fails_toNode s).mono fun _ h => h.trans hs.1
    -- What is wrong with the fields of a dictionary is wrong with the dictionary itself; what is
    -- wrong with its operands comes from the recursion.
    have hself : ∀ {α : Type} {x : Except TreeFault α}, Fails (dict self entries).Blames x →
        Fails (Blamed (dict self entries)) x := fun hx => hx.mono fun _ h => h.blamed .self
    rw [toNode_dict, dictNode]
    split
    next htag => exact fails_programNode htag hread
    next => exact fails_soleNode (fun _ => trivial) hread
    next => exact fails_soleNode (fun _ => trivial) hread
    next => exact (hself fails_number).bind fun _ _ => .ok _
    next htag => exact (hself (fails_text htag (by decide))).bind fun _ _ => .ok _
    next => exact .ok _
    next => exact .ok _
    next => exact .ok _
    next htag => exact (hself (fails_text htag (by decide))).bind fun _ _ => .ok _
    next htag => exact (hself (fails_text htag (by decide))).bind fun _ _ => .ok _
    next => exact fails_memberNode hread
    next => exact fails_binaryNode hread
    next => exact fails_binaryNode hread
    next => exact fails_superNode
    next => exact fails_binaryNode hread
    next =>
      have hsole : Fails (Blamed (dict self entries))
          (soleNode toNode (fun _ => .notOneOperand) entries) :=
        fails_soleNode (fun _ => trivial) hread
      exact hsole.bind fun _ _ => .ok _
    next => exact fails_callNode hread
    next => exact fails_objectNode hread
    next => exact hself (.error ⟨self, entries, rfl, rfl⟩)
termination_by t.height

end

/-! ## Data -/

/-- A tree that is made of values with a property. -/
inductive MadeOf (P : Value → Prop) : Tree → Prop
  | leaf {v : Value} (hv : P v) : MadeOf P (.leaf v)
  | list {self : Value} {items : List Tree} (hself : P self) (hitems : ∀ t ∈ items, MadeOf P t) :
    MadeOf P (.list self items)
  | dict {self : Value} {entries : List (Value × Tree)} (hself : P self)
    (hentries : ∀ e ∈ entries, MadeOf P e.2) : MadeOf P (.dict self entries)

/-- What holds of the values that a tree is made of may be put more loosely. -/
theorem MadeOf.mono {P Q : Value → Prop} (hPQ : ∀ v, P v → Q v) {t : Tree} (h : MadeOf P t) :
    MadeOf Q t := by
  induction h with
  | leaf hv => exact .leaf (hPQ _ hv)
  | list hself _ ih => exact .list (hPQ _ hself) ih
  | dict hself _ ih => exact .dict (hPQ _ hself) ih

/-- It holds of the value that the tree stands for. -/
theorem MadeOf.toValue {P : Value → Prop} {t : Tree} (h : MadeOf P t) : P t.toValue := by
  cases h with
  | leaf hv => exact hv
  | list hself => exact hself
  | dict hself => exact hself

/-- It holds of the values that a field is made of. -/
theorem MadeOf.field? {P : Value → Prop} {self : Value} {entries : List (Value × Tree)}
    (h : MadeOf P (.dict self entries)) {name : String} {t : Tree}
    (ht : Tree.field? entries name = some t) : MadeOf P t := by
  obtain ⟨e, he, rfl⟩ := Option.map_eq_some_iff.mp ht
  cases h with
  | dict hself hentries => exact hentries e (List.mem_of_find?_eq_some he)

/-- It holds of the value of a field, if it holds of null. -/
theorem MadeOf.fieldValue {P : Value → Prop} {self : Value} {entries : List (Value × Tree)}
    (hnull : P .null) (h : MadeOf P (.dict self entries)) (name : String) :
    P (fieldValue entries name) := by
  rw [Tree.fieldValue]
  cases ht : Tree.field? entries name with
  | none => exact hnull
  | some t => exact (h.field? ht).toValue

/-- The operands of a dictionary are made of what it is made of, and of text. -/
theorem MadeOf.operand {P : Value → Prop} (htext : ∀ s, P (.str s)) {self : Value}
    {entries : List (Value × Tree)} (h : MadeOf P (.dict self entries)) {ts : List Tree}
    (hts : operandTrees entries = .ok ts) {t : Tree} (ht : t ∈ ts) : MadeOf P t := by
  unfold operandTrees at hts
  split at hts
  · cases hts
    cases ht
  · rename_i hchildren
    cases hts
    obtain ⟨e, he, rfl⟩ := List.mem_map.mp ht
    cases h.field? hchildren with
    | dict _ hentries => exact hentries e he
  · rename_i hchildren
    cases hts
    cases h.field? hchildren with
    | list _ hitems => exact hitems t ht
  · rename_i hchildren
    cases h.field? hchildren
  · split at hts
    · cases hts
      cases ht
    · split at hts
      · cases hts
        obtain ⟨c, -, rfl⟩ := List.mem_map.mp ht
        exact .leaf (htext _)
      · cases hts

/-- The parts of a tree are made of what the tree is made of, and of text. -/
theorem MadeOf.part {P : Value → Prop} {s t : Tree} (htext : ∀ s, P (.str s)) (hs : Part s t)
    (h : MadeOf P t) : MadeOf P s := by
  induction hs with
  | self => exact h
  | item ht _ ih =>
    cases h with
    | list _ hitems => exact ih (hitems _ ht)
  | operand hts ht _ ih => exact ih (h.operand htext hts ht)

end Tree

namespace Heap

/-- Data that nests no deeper than a number of lists and dictionaries. -/
inductive Data (h : Heap) : Nat → Value → Prop
  | plain {depth : Nat} {v : Value} (hv : v.Plain) : Data h depth v
  | list {depth : Nat} {id : ObjectId} {items : List Value} (hid : h.object? id = some (.list items))
    (hitems : ∀ v ∈ items, Data h depth v) : Data h (depth + 1) (.object id)
  | dict {depth : Nat} {id : ObjectId} {entries : Slots} (hid : h.object? id = some (.dict entries))
    (hkeys : ∀ slot ∈ entries.values, ∃ s, slot.label = .str s)
    (hvalues : ∀ slot ∈ entries.values, Data h depth slot.value) : Data h (depth + 1) (.object id)

/-- Items that can all be printed can be printed in a row. -/
theorem exists_mapM {α β : Type} {f : α → Printed β} {as : List α}
    (hf : ∀ a ∈ as, ∃ b, f a = .ok b) : ∃ bs, as.mapM f = .ok bs := by
  induction as with
  | nil => exact ⟨[], rfl⟩
  | cons a as ih =>
    obtain ⟨ha, has⟩ := List.forall_mem_cons.mp hf
    obtain ⟨b, hb⟩ := ha
    obtain ⟨bs, hbs⟩ := ih has
    refine ⟨b :: bs, ?_⟩
    rw [List.mapM_cons, hb, hbs]
    rfl

/-- Data is inspected wherever there is room for it. -/
theorem Data.exists_inspectWithin {h : Heap} {n : Nat} {v : Value} (hv : h.Data n v) {depth : Nat}
    (hdepth : n < depth) (around : List ObjectId) : ∃ s, h.inspectWithin depth around v = .ok s := by
  induction hv generalizing depth around with
  | @plain n v hv =>
    obtain ⟨d, rfl⟩ := Nat.exists_eq_succ_of_ne_zero (Nat.ne_zero_of_lt hdepth)
    cases v with
    | type c => exact hv.elim
    | builtin f => exact hv.elim
    | object id => exact hv.elim
    | _ =>
      rw [inspectWithin]
      exact ⟨_, rfl⟩
  | @list n id items hid _ ih =>
    obtain ⟨d, rfl⟩ := Nat.exists_eq_succ_of_ne_zero (Nat.ne_zero_of_lt hdepth)
    obtain ⟨parts, hparts⟩ := exists_mapM fun v hv => ih v hv (Nat.lt_of_succ_lt_succ hdepth) (id :: around)
    rw [inspectWithin]
    simp only [hid]
    split
    · exact ⟨_, rfl⟩
    · rw [hparts]
      exact ⟨_, rfl⟩
  | @dict n id entries hid hkeys _ ih =>
    obtain ⟨d, rfl⟩ := Nat.exists_eq_succ_of_ne_zero (Nat.ne_zero_of_lt hdepth)
    have hroom : n < d := Nat.lt_of_succ_lt_succ hdepth
    rw [inspectWithin]
    simp only [hid]
    split
    · exact ⟨_, rfl⟩
    · have hparts : ∃ parts, (entries.values.mapM fun slot => do
          let key ← h.inspectWithin d (id :: around) slot.label
          return key ++ ": " ++ (← h.inspectWithin d (id :: around) slot.value)) = .ok parts := by
        refine exists_mapM fun slot hslot => ?_
        obtain ⟨s, hs⟩ := hkeys slot hslot
        obtain ⟨value, hvalue⟩ := ih slot hslot hroom (id :: around)
        obtain ⟨d, rfl⟩ := Nat.exists_eq_succ_of_ne_zero (Nat.ne_zero_of_lt hroom)
        rw [hs, hvalue, inspectWithin]
        exact ⟨_, rfl⟩
      obtain ⟨parts, hparts⟩ := hparts
      rw [hparts]
      exact ⟨_, rfl⟩

/-- Data of some depth is data of a greater one. -/
theorem Data.mono {h : Heap} {m n : Nat} {v : Value} (hv : h.Data m v) (hmn : m ≤ n) :
    h.Data n v := by
  induction hv generalizing n with
  | plain hv => exact .plain hv
  | list hid _ ih =>
    obtain ⟨n, rfl⟩ := Nat.exists_eq_succ_of_ne_zero (Nat.ne_zero_of_lt hmn)
    exact .list hid fun v hv => ih v hv (Nat.le_of_succ_le_succ hmn)
  | dict hid hkeys _ ih =>
    obtain ⟨n, rfl⟩ := Nat.exists_eq_succ_of_ne_zero (Nat.ne_zero_of_lt hmn)
    exact .dict hid hkeys fun slot hslot => ih slot hslot (Nat.le_of_succ_le_succ hmn)

/-- The tree of data is made of data. -/
theorem Data.madeOf {h : Heap} {n : Nat} {v : Value} (hv : h.Data n v) (depth : Nat)
    (around : List ObjectId) : (h.treeWithin depth around v).MadeOf (h.Data n) := by
  induction hv generalizing depth around with
  | @plain n v hv =>
    cases depth with
    | zero => exact .leaf (.plain hv)
    | succ depth =>
      cases v with
      | object id => exact hv.elim
      | _ => exact .leaf (.plain hv)
  | @list n id items hid hitems ih =>
    have hself : h.Data (n + 1) (.object id) := .list hid hitems
    cases depth with
    | zero => exact .leaf hself
    | succ depth =>
      rw [treeWithin]
      simp only [hid]
      split
      · exact .leaf hself
      · refine .list hself fun t ht => ?_
        obtain ⟨v, hv, rfl⟩ := List.mem_map.mp ht
        exact (ih v hv depth _).mono fun _ h => h.mono n.le_succ
  | @dict n id entries hid hkeys hvalues ih =>
    have hself : h.Data (n + 1) (.object id) := .dict hid hkeys hvalues
    cases depth with
    | zero => exact .leaf hself
    | succ depth =>
      rw [treeWithin]
      simp only [hid]
      split
      · exact .leaf hself
      · refine .dict hself fun e he => ?_
        obtain ⟨slot, hslot, rfl⟩ := List.mem_map.mp he
        exact (ih slot hslot depth _).mono fun _ h => h.mono n.le_succ

/-- Data that is not too deep can be put into words. -/
theorem Data.exists_text {h : Heap} {n : Nat} {v : Value} (hv : h.Data n v) (hn : n < printDepth) :
    ∃ s, h.text v = .ok s := by
  obtain ⟨s, hs⟩ := hv.exists_inspectWithin hn []
  cases v with
  | str s => exact ⟨s, rfl⟩
  | _ => exact ⟨s, hs⟩

end Heap

/-- What is wrong with data can be put into words. -/
theorem TreeFault.arising_of_data {h : Heap} {n : Nat} {v : Value} (hv : h.Data n v)
    (hn : n < Heap.printDepth) {e : TreeFault} (he : (h.readTree v).Blamed e) :
    (Fault.tree e).arising h = .tree e := by
  obtain ⟨s, hs, hblames⟩ := he
  have hmade : s.MadeOf (h.Data n) := (hv.madeOf _ []).part (fun _ => .plain trivial) hs
  -- The values that messages show are the part itself and its tag.
  have hinspect : ∀ w, h.Data n w → ∃ text, h.inspect w = .ok text :=
    fun w hw => hw.exists_inspectWithin hn []
  have hmessage : ∃ text, e.message h = .ok text := by
    cases e with
    | noNumberText w | notProperty w | notName w =>
      obtain ⟨text, htext⟩ := hinspect w (hblames ▸ hmade.toValue)
      rw [message, htext]
      exact ⟨_, rfl⟩
    | unknownTag w =>
      obtain ⟨self, entries, rfl, rfl⟩ := hblames
      obtain ⟨text, htext⟩ := (hmade.fieldValue (.plain trivial) "tag").exists_text hn
      rw [message, htext]
      exact ⟨_, rfl⟩
    | _ => exact ⟨_, rfl⟩
  obtain ⟨text, htext⟩ := hmessage
  rw [Fault.arising, Fault.message, htext]

/-- A tree that denotes nothing is refused with what arises from the fault. -/
theorem Run.on_transform_error {m : Machine} {v : Value} {e : TreeFault}
    (hread : (m.heap.readTree v).toNode = .error e) :
    on (transform v) m = (.error (.fault ((Fault.tree e).arising m.heap)), m) := by
  rw [transform, on_bind, on_heap]
  dsimp only
  rw [hread, on_fail]

/-- Transforming data comes to a node, or ends with a fault of the tree for which a part of it is to
blame. Nothing has changed then. -/
theorem Run.on_transform_data {m : Machine} {n : Nat} {v : Value} (hv : m.heap.Data n v)
    (hn : n < Heap.printDepth) :
    (∃ node m', on (transform v) m = (.ok node, m')) ∨
      ∃ e, on (transform v) m = (.error (.fault (.tree e)), m) ∧ (m.heap.readTree v).Blamed e := by
  cases hread : (m.heap.readTree v).toNode with
  | ok node =>
    obtain ⟨settled, m', hsettle⟩ := node.finishes_settle m
    refine .inl ⟨settled, m', ?_⟩
    rw [transform, on_bind, on_heap]
    dsimp only
    rw [hread]
    exact hsettle
  | error e =>
    have hblamed : (m.heap.readTree v).Blamed e := Tree.fails_toNode _ e hread
    refine .inr ⟨e, ?_, hblamed⟩
    rw [on_transform_error hread, TreeFault.arising_of_data hv hn hblamed]

/-- The kinds of fault with which a tree may be rejected: the two that the transformer has for it, a
key error if a part of the tree lacks its text, and a type error if the children of a part cannot be
gone through. -/
def Tree.Rejects (t : Tree) (kind : FaultKind) : Prop :=
  kind = .syntaxError ∨ kind = .notImplementedError ∨
    (kind = .keyError ∧ ∃ s, Part s t ∧ s.LacksText) ∨
    (kind = .typeError ∧ ∃ s, Part s t ∧ s.Unreadable)

/-- Transforming data comes to a node, or the tree is rejected and everything is left as it was. -/
theorem transform_rejects_by_culprit {m : Machine} {n : Nat} {v : Value} (hv : m.heap.Data n v)
    (hn : n < Heap.printDepth) :
    (∃ node m', Run.on (Run.transform v) m = (.ok node, m')) ∨
      ∃ fault : Fault, Run.on (Run.transform v) m = (.error (.fault fault), m) ∧
        (m.heap.readTree v).Rejects fault.kind := by
  rcases Run.on_transform_data hv hn with hok | ⟨e, hfault, s, hs, hblames⟩
  · exact .inl hok
  refine .inr ⟨.tree e, hfault, ?_⟩
  cases e with
  | unknownTag tag => exact .inr (.inl rfl)
  | missingText => exact .inr (.inr (.inl ⟨rfl, s, hs, hblames⟩))
  | notIterable => exact .inr (.inr (.inr ⟨rfl, s, hs, hblames⟩))
  | _ => exact .inl rfl

/-- The entries of a dictionary under texts. -/
def Slots.named (fields : List (String × Value)) : Slots :=
  fields.foldl (fun slots field => slots.put (.str field.1) (.str field.1) field.2) .empty

/-- A machine with one dictionary on its heap. -/
def Machine.withDict (fields : List (String × Value)) : Machine :=
  { Machine.blank with heap := (Machine.blank.heap.alloc (.dict (.named fields))).2 }

/-- The dictionary. -/
def Machine.theDict : Value := .object Machine.blank.heap.size

/-- A dictionary of plain values is data of one level. -/
theorem Heap.data_theDict {fields : List (String × Value)}
    (hnamed : (Slots.named fields).values = fields.map fun field => ⟨.str field.1, field.2⟩)
    (hplain : ∀ field ∈ fields, field.2.Plain) :
    (Machine.withDict fields).heap.Data 1 Machine.theDict := by
  have hdict : (Machine.withDict fields).heap.object? Machine.blank.heap.size =
      some (.dict (.named fields)) := (object?_alloc _ _ _).trans (if_pos rfl)
  refine .dict hdict (fun slot hslot => ?_) fun slot hslot => ?_
  · obtain ⟨field, -, rfl⟩ := List.mem_map.mp (hnamed ▸ hslot)
    exact ⟨field.1, rfl⟩
  · obtain ⟨field, hfield, rfl⟩ := List.mem_map.mp (hnamed ▸ hslot)
    exact .plain (hplain field hfield)

/-- A number that is none is rejected. -/
theorem bad_number_is_rejected :
    (Machine.withDict [("tag", .str "number"), ("text", .str "1x")]).heap.Data 1 Machine.theDict ∧
      1 < Heap.printDepth ∧
      ∃ fault : Fault, Run.on (Run.transform Machine.theDict)
          (Machine.withDict [("tag", .str "number"), ("text", .str "1x")]) =
            (.error (.fault fault), Machine.withDict [("tag", .str "number"), ("text", .str "1x")]) ∧
        Tree.Rejects ((Machine.withDict [("tag", .str "number"), ("text", .str "1x")]).heap.readTree
          Machine.theDict) fault.kind := by
  have hdata : (Machine.withDict [("tag", .str "number"), ("text", .str "1x")]).heap.Data 1
      Machine.theDict := Heap.data_theDict rfl (by simp [Value.Plain])
  refine ⟨hdata, by decide, ?_⟩
  rcases transform_rejects_by_culprit hdata (by decide) with ⟨node, m', hok⟩ | hrejects
  · -- The text of the number denotes none, so there is no node.
    rw [Run.on_transform_error (e := .badNumber "1x")] at hok
    · cases hok
    · show Tree.toNode
        (.dict _ [(.str "tag", .leaf (.str "number")), (.str "text", .leaf (.str "1x"))]) = _
      rw [Tree.toNode_dict]
      rfl
  · exact hrejects

/-- A string without a text and a program whose children are null fail with faults of the host's
own. -/
theorem malformed_trees_fail_natively :
    (∃ m v, m.heap.Data 1 v ∧ ∃ fault : Fault,
        Run.on (Run.transform v) m = (.error (.fault fault), m) ∧ fault.kind = .keyError) ∧
      ∃ m v, m.heap.Data 1 v ∧ ∃ fault : Fault,
        Run.on (Run.transform v) m = (.error (.fault fault), m) ∧ fault.kind = .typeError := by
  constructor
  · have hread : ((Machine.withDict [("tag", .str "string")]).heap.readTree Machine.theDict).toNode =
        .error .missingText := by
      show Tree.toNode (.dict _ [(.str "tag", .leaf (.str "string"))]) = _
      rw [Tree.toNode_dict]
      rfl
    exact ⟨_, Machine.theDict, Heap.data_theDict rfl (by simp [Value.Plain]), .tree .missingText,
      (Run.on_transform_error hread).trans rfl, rfl⟩
  · have hread : ((Machine.withDict [("tag", .str "program"), ("children", .null)]).heap.readTree
        Machine.theDict).toNode = .error .notIterable := by
      show Tree.toNode
        (.dict _ [(.str "tag", .leaf (.str "program")), (.str "children", .leaf .null)]) = _
      rw [Tree.toNode_dict]
      rfl
    exact ⟨_, Machine.theDict, Heap.data_theDict rfl (by simp [Value.Plain]), .tree .notIterable,
      (Run.on_transform_error hread).trans rfl, rfl⟩

end ChainScript
