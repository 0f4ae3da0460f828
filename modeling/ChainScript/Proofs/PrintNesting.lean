import Mathlib.Data.Finset.Card
import Mathlib.Order.WellFounded
import ChainScript.Proofs.LeafPrint

/-!
# How deep the printer opens values

Records, mappings and lists may hold one another in cycles, and rendering still ends: every record
and every mapping that is opened raises the level, and from the third level on they are cut off. A
list passes the level on as it is, so a cycle of lists alone would have no end.

`Shown` is what is shown of a value, as a tree, and `Heap.Shows` says which tree that is, rule by
rule. The tree of a value exists wherever no list is inside itself, its nesting is bounded by the
level that it is shown at, and the bounded printer comes to it from an explicit depth on. The
measure is the level first and the lists that are still to be opened second.
-/

namespace ChainScript

/-- What is shown with its slots in braces. -/
inductive Braced where
  | record
  | mapping

/-- How the braces open. -/
def Braced.opening : Braced → String
  | .record => "\x7b"
  | .mapping => "#\x7b"

/-- What is shown of a value. Leaves and keys are there as they are printed. -/
inductive Shown where
  | leaf (form : Printed Value)
  | list (items : List Shown)
  | empty (b : Braced)
  | cut (b : Braced)
  | opened (b : Braced) (slots : List (Printed String × Shown))

namespace Shown

mutual

/-- The largest number of records and mappings that are opened inside one another. -/
def nesting : Shown → Nat
  | .list items => nestingAll items
  | .opened _ slots => nestingSlots slots + 1
  | _ => 0

/-- The largest nesting of a list of shown values. -/
def nestingAll : List Shown → Nat
  | [] => 0
  | tree :: trees => max tree.nesting (nestingAll trees)

/-- The largest nesting of the values of shown slots. -/
def nestingSlots : List (Printed String × Shown) → Nat
  | [] => 0
  | (_, tree) :: rest => max tree.nesting (nestingSlots rest)

end

mutual

/-- How a tree is printed, given how a value is converted to text. -/
def print (text : Value → Printed String) : Shown → Printed Value
  | .leaf form => form
  | .list items => do
    return .str ("[" ++ commaSeparated (← allTexts (← printAll text items)) ++ "]")
  | .empty b => pure (.str (b.opening ++ "\x7d"))
  | .cut b => pure (.str (b.opening ++ "...\x7d"))
  | .opened b slots => do
    return .str (b.opening ++ commaSeparated (← printSlots text slots) ++ "\x7d")

/-- How trees are printed in order. -/
def printAll (text : Value → Printed String) : List Shown → Printed (List Value)
  | [] => pure []
  | tree :: trees => do return (← tree.print text) :: (← printAll text trees)

/-- How slots are printed in order. -/
def printSlots (text : Value → Printed String) :
    List (Printed String × Shown) → Printed (List String)
  | [] => pure []
  | (key, tree) :: rest => do
    let key ← key
    let value ← tree.print text
    let slot := key ++ ": " ++ (← text value)
    return slot :: (← printSlots text rest)

end

end Shown

namespace Heap

variable {h : Heap} {width level : Int} {v : Value} {depth need : Nat}

/-- The items of a list that a value names. -/
def listItems? (h : Heap) (v : Value) : Option (List Value) :=
  match h.objectOf? v with
  | some (.list items) => some items
  | _ => none

/-- The slots of a record, or the entries of a mapping, that a value names. -/
def braced? (h : Heap) (v : Value) : Option (Braced × Slots) :=
  match h.objectOf? v with
  | some (.record _ slots _ _) => some (.record, slots)
  | some (.dict entries) | some (.proxy entries) => some (.mapping, entries)
  | _ => none

/-- How a printer shows the label of a slot: as the name of a slot in a record, and as a value in a
mapping. -/
def label (p : ValuePrinter) (level : Int) (b : Braced) (name : Value) : Printed String :=
  match b with
  | .record => p.slotName name
  | .mapping => p.render level name >>= p.text

/-- The printer for what leaves and keys come to. -/
def leafPrinter (h : Heap) (width : Int) : ValuePrinter := h.printerWithin leafDepth width

mutual

/-- What is shown of a value at a level. The slots of a record or a mapping are shown a level
further down, and the items of a list at the level of the list. -/
inductive Shows (h : Heap) (width : Int) : Int → Value → Shown → Prop
  | leaf {level : Int} {v : Value} (hv : h.Leaf v) :
    Shows h width level v (.leaf ((h.leafPrinter width).render level v))
  | list {level : Int} {v : Value} {items : List Value} {trees : List Shown}
    (hv : h.listItems? v = some items) (htrees : ShowsAll h width level items trees) :
    Shows h width level v (.list trees)
  | empty {level : Int} {v : Value} {b : Braced} {slots : Slots} (hv : h.braced? v = some (b, slots))
    (hempty : Table.isEmpty slots = true) : Shows h width level v (.empty b)
  | cut {level : Int} {v : Value} {b : Braced} {slots : Slots} (hv : h.braced? v = some (b, slots))
    (hempty : Table.isEmpty slots = false) (hlevel : 2 < level) : Shows h width level v (.cut b)
  | opened {level : Int} {v : Value} {b : Braced} {slots : Slots}
    {trees : List (Printed String × Shown)} (hv : h.braced? v = some (b, slots))
    (hempty : Table.isEmpty slots = false) (hlevel : level ≤ 2)
    (htrees : ShowsSlots h width b (level + 1) slots.values trees) :
    Shows h width level v (.opened b trees)

/-- What is shown of values in order. -/
inductive ShowsAll (h : Heap) (width : Int) : Int → List Value → List Shown → Prop
  | nil {level : Int} : ShowsAll h width level [] []
  | cons {level : Int} {v : Value} {vs : List Value} {tree : Shown} {trees : List Shown}
    (hv : Shows h width level v tree) (hvs : ShowsAll h width level vs trees) :
    ShowsAll h width level (v :: vs) (tree :: trees)

/-- What is shown of the slots of a record or a mapping in order. -/
inductive ShowsSlots (h : Heap) (width : Int) :
    Braced → Int → List Slot → List (Printed String × Shown) → Prop
  | nil {b : Braced} {level : Int} : ShowsSlots h width b level [] []
  | cons {b : Braced} {level : Int} {slot : Slot} {slots : List Slot} {tree : Shown}
    {trees : List (Printed String × Shown)} (hv : Shows h width level slot.value tree)
    (hslots : ShowsSlots h width b level slots trees) :
    ShowsSlots h width b level (slot :: slots)
      ((label (h.leafPrinter width) level b slot.label, tree) :: trees)

end

/-! ## Values that can be shown -/

/-- A list is an item of another. -/
def ItemOf (h : Heap) (x id : ObjectId) : Prop :=
  (h.listItems? (.object x)).isSome ∧ ∃ items, h.listItems? (.object id) = some items ∧ .object x ∈ items

/-- A list opens to its items, and a record or a mapping to the labels and the values of its slots.
-/
inductive Opens (h : Heap) : Value → Value → Prop
  | item {v w : Value} {items : List Value} (hv : h.listItems? v = some items) (hw : w ∈ items) :
    Opens h v w
  | label {v : Value} {b : Braced} {slots : Slots} {slot : Slot} (hv : h.braced? v = some (b, slots))
    (hslot : slot ∈ slots.values) : Opens h v slot.label
  | value {v : Value} {b : Braced} {slots : Slots} {slot : Slot} (hv : h.braced? v = some (b, slots))
    (hslot : slot ∈ slots.values) : Opens h v slot.value

/-- From a value on, slots and entries have primitive labels, all that is no list, record or mapping
is a leaf, and no cycle leads through lists alone. -/
structure Showable (h : Heap) (v : Value) : Prop where
  labels : ∀ {w b slots}, Relation.ReflTransGen h.Opens v w → h.braced? w = some (b, slots) →
    ∀ slot ∈ slots.values, h.isPrimitive slot.label = true
  leaves : ∀ {w}, Relation.ReflTransGen h.Opens v w → h.isContainer w = false → h.Leaf w
  acyclic : ∀ {id}, Relation.ReflTransGen h.Opens v (.object id) → ¬Relation.TransGen h.ItemOf id id

/-- What a value that can be shown opens to can be shown. -/
theorem Showable.opened (hv : h.Showable v) {w : Value} (hw : h.Opens v w) : h.Showable w where
  labels hx := hv.labels (.head hw hx)
  leaves hx := hv.leaves (.head hw hx)
  acyclic hx := hv.acyclic (.head hw hx)

/-- What has an object is the value that names it. -/
theorem exists_object_of_objectOf? {o : Object} (ho : h.objectOf? v = some o) :
    ∃ id, v = .object id ∧ h.object? id = some o := by
  cases v with
  | object id => exact ⟨id, rfl, ho⟩
  | _ => cases ho

/-- What is no leaf is a list, a record or a mapping. -/
theorem container_cases (hv : h.isContainer v = true) :
    (∃ items, h.listItems? v = some items) ∨ ∃ b slots, h.braced? v = some (b, slots) := by
  unfold isContainer at hv
  split at hv
  next items ho => exact .inl ⟨items, by rw [listItems?, ho]⟩
  next slots _ _ ho => exact .inr ⟨.record, slots, by rw [braced?, ho]⟩
  next entries ho => exact .inr ⟨.mapping, entries, by rw [braced?, ho]⟩
  next entries ho => exact .inr ⟨.mapping, entries, by rw [braced?, ho]⟩
  next => cases hv

/-- What is primitive is a leaf, where it can be shown. -/
theorem Showable.leaf_of_isPrimitive (hv : h.Showable v) (hprimitive : h.isPrimitive v = true) :
    h.Leaf v := by
  refine hv.leaves .refl ?_
  cases v with
  | object id =>
    cases ho : h.object? id with
    | none => simp [isPrimitive, ho] at hprimitive
    | some o =>
      cases o with
      | symbol => simp [isContainer, objectOf?, ho]
      | _ => simp [isPrimitive, ho] at hprimitive
  | _ => rfl

/-! ## Leaves and labels -/

/-- Where there is depth for leaves, printers agree with that of leaves on values that name no
object. -/
theorem agree_leafPrinter (h : Heap) (width : Int) (hdepth : leafDepth ≤ depth) :
    (h.printerWithin depth width).Agree (h.leafPrinter width) := by
  obtain ⟨d, rfl⟩ := Nat.exists_eq_add_of_le' hdepth
  exact h.agree_printers (d + 3) 3 width width

/-- A leaf is shown as it is at the depth of leaves. -/
theorem Leaf.firm_form (hv : h.Leaf v) (width level : Int) (hdepth : leafDepth ≤ depth) :
    ValuePrinter.FirmPlain (h.renderWithin depth [] width level v)
      ((h.leafPrinter width).render level v) := by
  obtain ⟨d, rfl⟩ := Nat.exists_eq_add_of_le' hdepth
  exact hv.firm_render d 0 width level

/-- So is a leaf that is the label of a slot. -/
theorem Leaf.firm_label (hv : h.Leaf v) (width level : Int) (b : Braced) (hdepth : leafDepth ≤ depth) :
    Firm (label (h.printerWithin depth width) level b v) (label (h.leafPrinter width) level b v) := by
  have hp := h.agree_leafPrinter width hdepth
  cases b with
  | mapping => exact hp.text_of (hv.firm_form width level hdepth)
  | record =>
    have hcomputed := hp.bind_text (hv.firm_form width 0 hdepth) fun key => .pure ("[" ++ key ++ "]")
    unfold label ValuePrinter.slotName
    cases v with
    | str s =>
      dsimp only
      split
      · exact .pure s
      · exact hcomputed
    | _ => exact hcomputed

/-! ## One container opened -/

/-- The form of a list is made of those of its items. -/
theorem renderWithin_list {items : List Value} (hv : h.listItems? v = some items) :
    h.renderWithin (depth + 1) [] width level v = do
      let parts ← items.mapM (h.renderWithin depth [] width level)
      return .str ("[" ++ commaSeparated (← allTexts parts) ++ "]") := by
  unfold listItems? at hv
  split at hv
  next ho =>
    cases hv
    obtain ⟨id, rfl, hid⟩ := exists_object_of_objectOf? ho
    rw [renderWithin, hid]
  next => cases hv

/-- How a slot is printed. -/
def printSlot (h : Heap) (depth : Nat) (width level : Int) (b : Braced) (slot : Slot) :
    Printed String := do
  let key ← label (h.printerWithin depth width) level b slot.label
  let value ← h.renderWithin depth [] width level slot.value
  return key ++ ": " ++ (← (h.printerWithin depth width).text value)

/-- The form of a record or a mapping, unless it is cut off, is made of those of its slots. -/
theorem renderWithin_braced {b : Braced} {slots : Slots} (hv : h.braced? v = some (b, slots)) :
    h.renderWithin (depth + 1) [] width level v =
      if Table.isEmpty slots then pure (.str (b.opening ++ "\x7d"))
      else if level > 2 then pure (.str (b.opening ++ "...\x7d"))
      else do
        let parts ← slots.values.mapM (h.printSlot depth width (level + 1) b)
        return .str (b.opening ++ commaSeparated parts ++ "\x7d") := by
  have hmapping : h.printSlot depth width (level + 1) .mapping = fun slot => do
      let key ← (h.printerWithin depth width).text
        (← h.renderWithin depth [] width (level + 1) slot.label)
      let value ← h.renderWithin depth [] width (level + 1) slot.value
      return key ++ ": " ++ (← (h.printerWithin depth width).text value) := by
    funext slot
    simp only [printSlot, label, bind_assoc]
    rfl
  unfold braced? at hv
  split at hv
  next ho =>
    cases hv
    obtain ⟨id, rfl, hid⟩ := exists_object_of_objectOf? ho
    rw [renderWithin, hid]
    rfl
  next ho =>
    cases hv
    obtain ⟨id, rfl, hid⟩ := exists_object_of_objectOf? ho
    rw [renderWithin, hid, hmapping]
    rfl
  next ho =>
    cases hv
    obtain ⟨id, rfl, hid⟩ := exists_object_of_objectOf? ho
    rw [renderWithin, hid, hmapping]
    rfl
  next => cases hv

/-! ## What is shown of a value -/

/-- What is shown of a value at a level, and the depth from which on the printer comes to it. -/
structure Comes (h : Heap) (width level : Int) (v : Value) (need : Nat) (tree : Shown) : Prop where
  shows : h.Shows width level v tree
  nesting : tree.nesting ≤ (3 - level).toNat
  form : ∀ depth, need ≤ depth → ValuePrinter.FirmPlain (h.renderWithin depth [] width level v)
    (tree.print (h.leafPrinter width).text)

/-- Values of which each is shown are shown in order. -/
theorem exists_showsAll {items : List Value}
    (hitems : ∀ w ∈ items, ∃ tree, h.Comes width level w need tree) :
    ∃ trees, h.ShowsAll width level items trees
      ∧ Shown.nestingAll trees ≤ (3 - level).toNat
      ∧ ∀ depth, need ≤ depth → Firm (items.mapM (h.renderWithin depth [] width level))
        (Shown.printAll (h.leafPrinter width).text trees) := by
  induction items with
  | nil => exact ⟨[], .nil, Nat.zero_le _, fun depth _ => by rw [List.mapM_nil]; exact .pure _⟩
  | cons w items ih =>
    obtain ⟨tree, hw⟩ := hitems w List.mem_cons_self
    obtain ⟨trees, hshows, hnesting, hform⟩ := ih fun w hw => hitems w (List.mem_cons_of_mem _ hw)
    refine ⟨tree :: trees, .cons hw.shows hshows, ?_, fun depth hdepth => ?_⟩
    · rw [Shown.nestingAll]
      exact max_le hw.nesting hnesting
    · rw [List.mapM_cons, Shown.printAll]
      exact (hw.form depth hdepth).firm.bind fun _ => (hform depth hdepth).bind fun _ => .pure _

/-- Slots of which every label is a leaf and every value is shown are shown in order. -/
theorem exists_showsSlots {slots : List Slot} (b : Braced) (hneed : leafDepth ≤ need)
    (hlabels : ∀ slot ∈ slots, h.Leaf slot.label)
    (hslots : ∀ slot ∈ slots, ∃ tree, h.Comes width level slot.value need tree) :
    ∃ trees, h.ShowsSlots width b level slots trees
      ∧ Shown.nestingSlots trees ≤ (3 - level).toNat
      ∧ ∀ depth, need ≤ depth → Firm (slots.mapM (h.printSlot depth width level b))
        (Shown.printSlots (h.leafPrinter width).text trees) := by
  induction slots with
  | nil => exact ⟨[], .nil, Nat.zero_le _, fun depth _ => by rw [List.mapM_nil]; exact .pure _⟩
  | cons slot slots ih =>
    obtain ⟨tree, hslot⟩ := hslots slot List.mem_cons_self
    obtain ⟨trees, hshows, hnesting, hform⟩ :=
      ih (fun slot hslot => hlabels slot (List.mem_cons_of_mem _ hslot))
        fun slot hslot => hslots slot (List.mem_cons_of_mem _ hslot)
    refine ⟨_, .cons hslot.shows hshows, ?_, fun depth hdepth => ?_⟩
    · rw [Shown.nestingSlots]
      exact max_le hslot.nesting hnesting
    · have hp := h.agree_leafPrinter width (hneed.trans hdepth)
      have hlabel := (hlabels slot List.mem_cons_self).firm_label width level b (hneed.trans hdepth)
      rw [List.mapM_cons, Shown.printSlots]
      simp only [printSlot, bind_assoc, pure_bind]
      refine hlabel.bind fun name => ?_
      exact hp.bind_text (hslot.form depth hdepth) fun value =>
        (hform depth hdepth).bind fun _ => .pure _

/-- A leaf is shown in one piece. -/
theorem Comes.leaf (hv : h.Leaf v) (width level : Int) :
    h.Comes width level v leafDepth (.leaf ((h.leafPrinter width).render level v)) :=
  ⟨.leaf hv, Nat.zero_le _, fun _ hdepth => hv.firm_form width level hdepth⟩

/-- A list is shown as its items are, at its own level. -/
theorem Comes.list {items : List Value} (hv : h.listItems? v = some items)
    (hitems : ∀ w ∈ items, ∃ tree, h.Comes width level w need tree) :
    ∃ tree, h.Comes width level v (need + 1) tree := by
  obtain ⟨trees, hshows, hnesting, hform⟩ := exists_showsAll hitems
  refine ⟨.list trees, .list hv hshows, by rw [Shown.nesting]; exact hnesting, ?_⟩
  intro depth hdepth
  obtain ⟨depth, rfl⟩ := Nat.exists_eq_add_of_le' (Nat.le_of_add_left_le hdepth)
  rw [renderWithin_list hv, Shown.print]
  exact .bind (hform depth (Nat.le_of_succ_le_succ hdepth)) fun values =>
    .bind (.allTexts values) fun _ => .str _

/-- A record or a mapping is shown as its slots are, one level down, or cut off from the third level
on. -/
theorem Comes.braced (hshowable : h.Showable v) {b : Braced} {slots : Slots}
    (hv : h.braced? v = some (b, slots)) (hneed : leafDepth ≤ need) (hslots : level ≤ 2 →
      ∀ slot ∈ slots.values, ∃ tree, h.Comes width (level + 1) slot.value need tree) :
    ∃ tree, h.Comes width level v (need + 1) tree := by
  have hform : ∀ {tree : Shown}, (∀ d, need ≤ d → ValuePrinter.FirmPlain
        (h.renderWithin (d + 1) [] width level v) (tree.print (h.leafPrinter width).text)) →
      ∀ depth, need + 1 ≤ depth → ValuePrinter.FirmPlain (h.renderWithin depth [] width level v)
        (tree.print (h.leafPrinter width).text) := by
    intro tree htree depth hdepth
    obtain ⟨d, rfl⟩ := Nat.exists_eq_add_of_le' (Nat.le_of_add_left_le hdepth)
    exact htree d (Nat.le_of_succ_le_succ hdepth)
  cases hempty : Table.isEmpty slots with
  | true =>
    refine ⟨.empty b, .empty hv hempty, Nat.zero_le _, hform fun d _ => ?_⟩
    rw [renderWithin_braced hv, if_pos hempty, Shown.print]
    exact .str _
  | false =>
    have hnot : ¬Table.isEmpty slots = true := by rw [hempty]; nofun
    by_cases hlevel : 2 < level
    · refine ⟨.cut b, .cut hv hempty hlevel, Nat.zero_le _, hform fun d _ => ?_⟩
      rw [renderWithin_braced hv, if_neg hnot, if_pos hlevel, Shown.print]
      exact .str _
    · have hopen : level ≤ 2 := Int.not_lt.mp hlevel
      have hlabels : ∀ slot ∈ slots.values, h.Leaf slot.label :=
        fun slot hslot => (hshowable.opened (.label hv hslot)).leaf_of_isPrimitive
          (hshowable.labels .refl hv slot hslot)
      obtain ⟨trees, hshows, hnesting, hprinted⟩ := exists_showsSlots b hneed hlabels (hslots hopen)
      refine ⟨.opened b trees, .opened hv hempty hopen hshows, ?_, hform fun d hd => ?_⟩
      · rw [Shown.nesting]
        omega
      · rw [renderWithin_braced hv, if_neg hnot, if_neg hlevel, Shown.print]
        exact .bind (hprinted d hd) fun _ => .str _

/-! ## The measure -/

open scoped Classical in
/-- The lists that a list leads to through lists alone, itself included. -/
noncomputable def listsBelow (h : Heap) (id : ObjectId) : Finset ObjectId :=
  (Finset.range h.size).filter fun x => Relation.ReflTransGen h.ItemOf x id

open scoped Classical in
/-- The lists below one are those that its items lead to. -/
theorem mem_listsBelow {x id : ObjectId} :
    x ∈ h.listsBelow id ↔ x < h.size ∧ Relation.ReflTransGen h.ItemOf x id := by
  rw [listsBelow, Finset.mem_filter, Finset.mem_range]

/-- There are no more of them than there are objects. -/
theorem card_listsBelow_le (h : Heap) (id : ObjectId) : (h.listsBelow id).card ≤ h.size :=
  calc (h.listsBelow id).card
      ≤ (Finset.range h.size).card :=
        Finset.card_le_card fun _ hx => Finset.mem_range.mpr (mem_listsBelow.mp hx).1
    _ = h.size := Finset.card_range _

/-- How many lists are still to be opened from a value on. -/
noncomputable def listsAhead (h : Heap) (v : Value) : Nat :=
  match h.listItems? v, v with
  | some _, .object id => (h.listsBelow id).card
  | _, _ => 0

/-- Nor are there more lists ahead. -/
theorem listsAhead_le (h : Heap) (v : Value) : h.listsAhead v ≤ h.size := by
  unfold listsAhead
  split
  · exact h.card_listsBelow_le _
  · exact Nat.zero_le _

/-- What is a list has an address on the heap. -/
theorem exists_id_of_listItems? {items : List Value} (hv : h.listItems? v = some items) :
    ∃ id, v = .object id ∧ id < h.size := by
  unfold listItems? at hv
  split at hv
  next ho =>
    obtain ⟨id, rfl, hid⟩ := exists_object_of_objectOf? ho
    exact ⟨id, rfl, lt_size_of_object? hid⟩
  next => cases hv

/-- From an item fewer lists are to be opened than from its list, where no list is inside itself. -/
theorem Showable.listsAhead_lt (hshowable : h.Showable v) {items : List Value} {w : Value}
    (hv : h.listItems? v = some items) (hw : w ∈ items) : h.listsAhead w < h.listsAhead v := by
  obtain ⟨id, rfl, hid⟩ := exists_id_of_listItems? hv
  have hself : id ∈ h.listsBelow id := mem_listsBelow.mpr ⟨hid, .refl⟩
  have hahead : h.listsAhead (.object id) = (h.listsBelow id).card := by
    simp only [listsAhead, hv]
  rw [hahead]
  cases hlist : h.listItems? w with
  | none =>
    have hzero : h.listsAhead w = 0 := by simp only [listsAhead, hlist]
    rw [hzero]
    exact Finset.card_pos.mpr ⟨id, hself⟩
  | some inner =>
    obtain ⟨x, rfl, -⟩ := exists_id_of_listItems? hlist
    have hitem : h.ItemOf x id := ⟨by rw [hlist]; rfl, items, hv, hw⟩
    have hinner : h.listsAhead (.object x) = (h.listsBelow x).card := by
      simp only [listsAhead, hlist]
    rw [hinner]
    refine Finset.card_lt_card ⟨fun y hy => ?_, fun hsub => ?_⟩
    · obtain ⟨hsize, hyx⟩ := mem_listsBelow.mp hy
      exact mem_listsBelow.mpr ⟨hsize, hyx.tail hitem⟩
    · -- The list itself is not below its item, since no list is inside itself.
      obtain ⟨-, hback⟩ := mem_listsBelow.mp (hsub hself)
      exact hshowable.acyclic .refl (Relation.TransGen.tail' hback hitem)

/-- How much is still to be opened from a value at a level: the level counts first, and the lists
that are still ahead second. -/
noncomputable def toOpen (h : Heap) (level : Int) (v : Value) : Nat :=
  (3 - level).toNat * (h.size + 1) + h.listsAhead v

/-- A depth that is enough for any value at a level. -/
def depthAt (h : Heap) (level : Int) : Nat := (3 - level).toNat * (h.size + 1) + h.size + leafDepth + 1

/-- What is still to be opened fits in the depth that is given at the level. -/
theorem toOpen_le (h : Heap) (level : Int) (v : Value) :
    h.toOpen level v + leafDepth + 1 ≤ h.depthAt level :=
  Nat.add_le_add_right (Nat.add_le_add_left (h.listsAhead_le v) _) (leafDepth + 1)

/-- Where a level is left, it weighs more than all lists. -/
theorem toOpen_lt (h : Heap) (hlevel : level ≤ 2) (v w : Value) :
    h.toOpen (level + 1) w < h.toOpen level v := by
  have hlevels : (3 - level).toNat = (3 - (level + 1)).toNat + 1 := by omega
  calc h.toOpen (level + 1) w
      ≤ (3 - (level + 1)).toNat * (h.size + 1) + h.size := Nat.add_le_add_left (h.listsAhead_le w) _
    _ < ((3 - (level + 1)).toNat + 1) * (h.size + 1) := by rw [Nat.succ_mul]; omega
    _ = (3 - level).toNat * (h.size + 1) := by rw [hlevels]
    _ ≤ h.toOpen level v := Nat.le_add_right _ _

/-- What needs a depth comes to the same with more of it. -/
theorem Comes.mono {need' : Nat} {tree : Shown} (hv : h.Comes width level v need tree)
    (hneed : need ≤ need') : h.Comes width level v need' tree :=
  ⟨hv.shows, hv.nesting, fun depth hdepth => hv.form depth (hneed.trans hdepth)⟩

/-- Of every value of a heap that can be shown, something is shown. -/
theorem Showable.exists_comes (hv : h.Showable v) (width level : Int) :
    ∃ tree, h.Comes width level v (h.toOpen level v + leafDepth + 1) tree := by
  -- By induction on what is still to be opened, for all values and levels.
  induction hn : h.toOpen level v using Nat.strongRecOn generalizing level v with
  | _ n ih =>
    have hheld : ∀ {l : Int} {w : Value}, h.Opens v w → h.toOpen l w < n →
        ∃ tree, h.Comes width l w (n + leafDepth) tree := by
      intro l w hw hlt
      obtain ⟨tree, htree⟩ := ih _ hlt (hv.opened hw) l rfl
      exact ⟨tree, htree.mono (Nat.add_right_comm _ _ _ ▸ Nat.add_le_add_right hlt _)⟩
    cases hcontainer : h.isContainer v with
    | false =>
      have hneed : leafDepth ≤ n + leafDepth + 1 := Nat.le_succ_of_le (Nat.le_add_left _ _)
      exact ⟨_, (Comes.leaf (hv.leaves .refl hcontainer) width level).mono hneed⟩
    | true =>
      obtain ⟨items, hitems⟩ | ⟨b, slots, hslots⟩ := container_cases hcontainer
      · refine Comes.list hitems fun w hw => hheld (.item hitems hw) ?_
        rw [← hn]
        exact Nat.add_lt_add_left (hv.listsAhead_lt hitems hw) _
      · refine Comes.braced hv hslots (Nat.le_add_left _ _) fun hlevel slot hslot =>
          hheld (.value hslots hslot) ?_
        rw [← hn]
        exact h.toOpen_lt hlevel v slot.value

end Heap

/-- Where records, mappings and lists lead to one another in any way but in a cycle through lists
alone, and all else are leaves, something is shown of a value at every level. On no path more
records and mappings are opened than levels are left below the third, and the printer comes to what
is shown wherever it may nest as deep as its level and the size of the heap take, and so at one
depth as at another. -/
theorem printing_ends {h : Heap} {v : Value} (hv : h.Showable v) (width level : Int) :
    ∃ tree, h.Shows width level v tree ∧ tree.nesting ≤ (3 - level).toNat
      ∧ ∀ depth, h.depthAt level ≤ depth →
        h.renderWithin depth [] width level v = tree.print (h.leafPrinter width).text
        ∧ h.renderWithin depth [] width level v ≠ .error .tooDeep := by
  obtain ⟨tree, htree⟩ := hv.exists_comes width level
  refine ⟨tree, htree.shows, htree.nesting, fun depth hdepth => ?_⟩
  have hform := (htree.form depth ((h.toOpen_le level v).trans hdepth)).firm
  exact ⟨hform.eq, hform.inDepth⟩

/-! ## A heap that leads back to itself -/

namespace Heap

/-- A heap with a record of a list of a mapping that leads back to the record. -/
def looped : Heap where
  cells := #[
    ⟨.record .plain (Slots.put .empty (.str "xs") (.str "xs") (.object 1)) none false, .empty⟩,
    ⟨.list [.object 2], .empty⟩,
    ⟨.dict (Slots.put .empty (.str "back") (.str "back") (.object 0)), .empty⟩]
  sharedAttributes := .empty
  classParts := .empty

/-- Its objects and the names of its slots. -/
def loopedValues : List Value := [.object 0, .object 1, .object 2, .str "xs", .str "back"]

/-- The only list among them holds the mapping. -/
theorem looped_listItems? {v : Value} {items : List Value} (hmem : v ∈ loopedValues)
    (hv : looped.listItems? v = some items) : v = .object 1 ∧ items = [.object 2] := by
  simp only [loopedValues, List.mem_cons, List.not_mem_nil, or_false] at hmem
  rcases hmem with rfl | rfl | rfl | rfl | rfl <;> cases hv
  exact ⟨rfl, rfl⟩

/-- What is printed in braces holds the list or the record. -/
theorem looped_braced? {v : Value} {b : Braced} {slots : Slots} (hmem : v ∈ loopedValues)
    (hv : looped.braced? v = some (b, slots)) :
    slots.values = [⟨.str "xs", .object 1⟩] ∨ slots.values = [⟨.str "back", .object 0⟩] := by
  simp only [loopedValues, List.mem_cons, List.not_mem_nil, or_false] at hmem
  rcases hmem with rfl | rfl | rfl | rfl | rfl <;> cases hv
  · exact .inl rfl
  · exact .inr rfl

/-- The record leads to nothing but these values. -/
theorem looped_reaches {v : Value} (hv : Relation.ReflTransGen looped.Opens (.object 0) v) :
    v ∈ loopedValues := by
  induction hv with
  | refl => exact List.mem_cons_self
  | tail _ hstep ih =>
    cases hstep with
    | item hv hw =>
      obtain ⟨-, rfl⟩ := looped_listItems? ih hv
      obtain rfl := List.mem_singleton.mp hw
      simp [loopedValues]
    | label hv hslot | value hv hslot =>
      obtain hslots | hslots := looped_braced? ih hv
      all_goals
        rw [hslots] at hslot
        obtain rfl := List.mem_singleton.mp hslot
        simp [loopedValues]

/-- The looped record can be shown. -/
theorem looped_showable : looped.Showable (.object 0) where
  labels hw hv slot hslot := by
    obtain hslots | hslots := looped_braced? (looped_reaches hw) hv
    all_goals
      rw [hslots] at hslot
      obtain rfl := List.mem_singleton.mp hslot
      rfl
  leaves {w} hw hsingle := by
    have hmem := looped_reaches hw
    simp only [loopedValues, List.mem_cons, List.not_mem_nil, or_false] at hmem
    rcases hmem with rfl | rfl | rfl | rfl | rfl
    · cases hsingle
    · cases hsingle
    · cases hsingle
    all_goals
      refine ⟨hsingle, by simp [shows, isCallable, inspectShows, objectOf?], fun hdeep => ?_⟩
      cases hdeep
  acyclic {id} hid hcycle := by
    -- The only list has no list among its items.
    obtain ⟨x, -, hlist, items, hitems, hx⟩ := Relation.TransGen.tail'_iff.mp hcycle
    obtain ⟨-, rfl⟩ := looped_listItems? (looped_reaches hid) hitems
    obtain rfl := Value.object.inj (List.mem_singleton.mp hx)
    cases hlist

end Heap

/-- The record is opened once more inside itself, and from the third level on nothing is. -/
theorem looped_record_is_cut :
    Heap.looped.Showable (.object 0)
      ∧ (∃ tree, Heap.looped.Shows 2 0 (.object 0) tree ∧ tree.nesting ≤ 3
        ∧ Heap.looped.render 2 0 (.object 0) = tree.print (Heap.looped.leafPrinter 2).text)
      ∧ Heap.looped.render 2 0 (.object 0) =
        .ok (.str "\x7bxs: [#\x7b'back': \x7bxs: [#\x7b...\x7d]\x7d\x7d]\x7d") := by
  obtain ⟨tree, hshows, hnesting, hprinted⟩ := printing_ends Heap.looped_showable 2 0
  have hdepth : Heap.looped.depthAt 0 ≤ Heap.printDepth := by decide
  exact ⟨Heap.looped_showable, ⟨tree, hshows, hnesting, (hprinted _ hdepth).1⟩, rfl⟩

end ChainScript
