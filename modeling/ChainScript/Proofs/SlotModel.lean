import ChainScript.Proofs.Places
import ChainScript.Proofs.Report

/-!
# One model of slots

Ordinary reads, writes and deletes agree on what the slots of a base are, whatever the base is. A
write that succeeds without an accessor is read back, and makes no other difference than in the
place that its key names. A delete that succeeds on a base with entries leaves none under its key.
The items of a sequence cannot be deleted, and a delete says so exactly where a read finds one.

An object that keeps an attribute in a place of its own never has another one under the same name
among those that were set on it: `Heap.AttributesApart`. Without that the write of such an attribute
would not be read back. It holds of every runner that was set up, and after whatever was run on it.
-/

namespace ChainScript

open Run (on)
open Ordinary (place? held? sequence? position? accessor? consulted?)

/-! ## Attributes in places of their own -/

namespace Object

/-- No change makes an object keep an attribute that it has no place for. -/
theorem Change.kept?_eq_none {guard : Guard} {o o' : Object} (c : o.Change guard o') {name : String}
    (hname : o.kept? name = none) : o'.kept? name = none := by
  cases c with
  | kept o other v =>
    by_cases hother : name = other
    · subst hother
      unfold withKept
      split <;> first | exact hname | cases hname
    · rw [kept?_withKept_of_ne hother, hname]
  | function f behaviour =>
    by_cases hown : name = "__name__"
    · subst hown
      cases hname
    · simp [kept?, hown]
  | _ => rfl

end Object

/-- No attribute was set on an object under a name under which the object keeps one in a place of
its own. -/
def Heap.AttributesApart (h : Heap) : Prop :=
  ∀ id o, h.object? id = some o → ∀ name, (h.attributes (.object id)).contains name = true →
    o.kept? name = none

namespace Heap.AttributesApart

variable {h : Heap}

/-- No step of the heap enters such an attribute. -/
theorem step {guard : Guard} {globals : ObjectId} {h' : Heap} (ha : h.AttributesApart)
    (s : Heap.Step guard globals h h') : h'.AttributesApart := by
  intro id o ho name hname
  cases s with
  | @alloc new _ =>
    rw [object?_alloc] at ho
    split at ho
    · rename_i hid
      subst hid
      rw [attributes_alloc_self] at hname
      cases hname
    · rw [attributes_alloc _ (lt_size_of_object? ho)] at hname
      exact ha id o ho name hname
  | @put j old new hold c =>
    rw [attributes_put] at hname
    rw [object?_put] at ho
    split at ho
    · rename_i hid
      subst hid
      rw [hold] at ho
      cases ho
      exact c.kept?_eq_none (ha id old hold name hname)
    · exact ha id o ho name hname
  | @relink _ j bindings parent parent' hold _ =>
    rw [attributes_put] at hname
    rw [object?_put] at ho
    split at ho
    · rename_i hid
      subst hid
      rw [hold] at ho
      cases ho
      rfl
    · exact ha id o ho name hname
  | @attributes v attributes hnew =>
    rw [object?_putAttributes] at ho
    by_cases hv : .object id = v
    · subst hv
      rw [attributes_putAttributes_self _ (.inr (.inr (by rw [objectOf?, ho]; rfl)))] at hname
      exact (hnew name hname).elim (ha id o ho name) fun hkept => hkept o ho
    · rw [attributes_putAttributes_of_ne _ _ hv] at hname
      exact ha id o ho name hname

/-- Nothing was set on any object of a machine that is not set up. -/
theorem blank : Machine.blank.heap.AttributesApart := by
  have hnone : ∀ cell ∈ Machine.blank.heap.cells.toList, cell.attributes = .empty := by decide
  intro id o ho name hname
  obtain ⟨cell, hcell, -⟩ := Option.map_eq_some_iff.mp ho
  rw [attributes, hcell, Option.map_some, Option.getD_some,
    hnone cell (Array.mem_toList_iff.mpr (Array.mem_of_getElem? hcell))] at hname
  cases hname

/-- Nor does replacing an object by one that keeps no attribute. -/
theorem put (ha : h.AttributesApart) (id : ObjectId) {o : Object} (ho : ∀ name, o.kept? name = none) :
    (h.put id o).AttributesApart := by
  intro j o' hj name hname
  rw [attributes_put] at hname
  rw [object?_put] at hj
  split at hj
  · obtain ⟨old, -, rfl⟩ := Option.map_eq_some_iff.mp hj
    exact ho name
  · exact ha j o' hj name hname

/-- It stays so whatever is run. -/
theorem machines {m : Machine} (ha : m.heap.AttributesApart) (uses : List Use) :
    (Use.machines m uses).heap.AttributesApart :=
  (Use.holds_machines (.ofHeap .none m.globals AttributesApart step) ⟨rfl, ha⟩
    (Use.straight_none m uses)).2

/-- It is so when a runner has been set up, whatever its settings are. -/
theorem start (config : Config) : (on (Runner.start config) Machine.blank).2.heap.AttributesApart :=
  (Runner.holds_start .none step (fun _ ha => ha.put _ fun _ => rfl) blank config).1

end Heap.AttributesApart

/-! ## Writes -/

namespace Attribute

/-- An attribute that is not the host's own and that an object takes is no more its own to read. -/
theorem isForeign_get {o : Object} {name : String} (hown : o.isForeign .set name = false)
    (htaken : (o.kept? name).isSome = true ∨ o.takesAttribute name = true) :
    o.isForeign .get name = false := by
  cases o with
  | awaitable once held body =>
    cases once with
    | true => rcases htaken with htaken | htaken <;> cases htaken
    | false => rfl
  | iterator source => rcases htaken with htaken | htaken <;> cases htaken
  | list items | tuple items => rcases htaken with htaken | htaken <;> cases htaken
  | reference r => rcases htaken with htaken | htaken <;> cases htaken
  | _ => exact hown

/-- Whether an attribute is the host's own does not depend on those that an object keeps. -/
theorem isForeign_withKept (o : Object) (name other : String) (v : Option Value) (kind : AccessKind) :
    (o.withKept name v).isForeign kind other = o.isForeign kind other := by
  unfold Object.withKept
  split <;> rfl

/-- Whether an attribute of an object is the host's own is said by its name and by the object. -/
theorem isForeign_object {h : Heap} {id : ObjectId} {o : Object} (ho : h.object? id = some o)
    (kind : AccessKind) (name : String) :
    h.isForeign kind (.object id) name = (Native.isReserved name || o.isForeign kind name) := by
  simp only [Heap.isForeign, ho, Option.map_some, Option.getD_some]

/-- An attribute that is entered hides whatever else stands under its name. -/
theorem find?_putAttributes {h : Heap} {base : Value} (name : String) (v : Value)
    (hbase : base = .undefined ∨ (∃ f, base = .builtin f) ∨ (h.objectOf? base).isSome = true) :
    find? (h.putAttributes base ((h.attributes base).insert name v)) base name
      = some (.value v) := by
  unfold find?
  rw [Heap.attributes_putAttributes_self _ hbase, Table.find?_insert, if_pos rfl]

/-- An attribute that an object keeps in a place of its own is found after it was replaced. -/
theorem find?_put_withKept {h : Heap} {id : ObjectId} {o : Object} {name : String} (v : Value)
    (hapart : h.AttributesApart) (ho : h.object? id = some o)
    (hkept : (o.kept? name).isSome = true) :
    find? (h.put id (o.withKept name (some v))) (.object id) name = some (.value v) := by
  have hfree : (h.attributes (.object id)).find? name = none := by
    by_contra hfound
    have hnone := hapart id o ho name (Option.isSome_iff_ne_none.mpr hfound)
    rw [hnone] at hkept
    cases hkept
  rw [find?_object (Heap.object?_put_self ho _), h.attributes_put, hfree,
    Object.kept?_withKept_self hkept]
  rfl

/-- An attribute that was set is found and is not the host's own, and no other difference is made.
-/
theorem exists_differsAt_of_set {m m' : Machine} {base v : Value} {name : String}
    (hapart : m.heap.AttributesApart) (hown : m.heap.isForeign .set base name = false)
    (hset : on (set base name v) m = (.ok true, m')) :
    ∃ h', m' = { m with heap := h' } ∧ find? h' base name = some (.value v)
      ∧ h'.isForeign .get base name = false ∧ DiffersAt base (.attr name) m.heap h' := by
  have hreserved : Native.isReserved name = false := (Bool.or_eq_false_iff.mp hown).1
  rw [on_set] at hset
  split at hset
  · cases hset
    refine ⟨_, rfl, find?_putAttributes name v (.inl rfl), ?_,
      .attr (.inl rfl) (by simp [Heap.objectOf?]) name v⟩
    simp [Heap.isForeign, hreserved, Value.natives]
  · cases hset
    refine ⟨_, rfl, find?_putAttributes name v (.inr (.inl ⟨_, rfl⟩)), ?_,
      .attr (.inr (.inl ⟨_, rfl⟩)) (by simp [Heap.objectOf?]) name v⟩
    simp [Heap.isForeign, hreserved]
  · rename_i id o ho
    have hbase : (m.heap.objectOf? (.object id)).isSome = true := by rw [ho]; rfl
    have hobject : m.heap.object? id = some o := ho
    rw [isForeign_object hobject, hreserved, Bool.false_or] at hown
    split at hset
    · rename_i hkept
      cases hset
      refine ⟨_, rfl, find?_put_withKept v hapart ho hkept, ?_, .kept ho hkept (some v)⟩
      rw [isForeign_object (Heap.object?_put_self ho _), hreserved, isForeign_withKept,
        isForeign_get hown (.inl hkept), Bool.false_or]
    · split at hset
      · rename_i htaken
        cases hset
        have hmethod : ∀ f, m.heap.objectOf? (.object id) ≠ some (.method f) := by
          intro f hf
          cases ho.symm.trans hf
          cases htaken
        refine ⟨_, rfl, find?_putAttributes name v (.inr (.inr hbase)), ?_,
          .attr (.inr (.inr hbase)) hmethod name v⟩
        rw [isForeign_object ((m.heap.object?_putAttributes _ _ id).trans hobject), hreserved,
          isForeign_get hown (.inr htaken), Bool.false_or]
      · cases hset
  · cases hset

end Attribute

namespace Ordinary

variable {m m' : Machine} {base key v : Value}

/-- No accessor has a part in writing a value to a base under a key: if the base is a record, the
value is no accessor, and none stands under the key in the nearest owner. -/
def NoAccessor (h : Heap) (base key v : Value) : Prop :=
  ∀ id, base = .object id → h.isRecord base = true →
    accessor? h v = none ∧ consulted? h id (.ofValue key) = none

/-- The host looks after no entry. -/
theorem foreign_of_entries? {h : Heap} {entries : Slots} (hentries : h.entries? base = some entries)
    (kind : AccessKind) (key : Value) : foreign h kind base key = false := by
  unfold foreign
  rw [hentries]

/-- The host looks after what a name stands for where it looks after the attribute. -/
theorem foreign_of_entries?_none {h : Heap} (hentries : h.entries? base = none) (kind : AccessKind)
    (name : String) : foreign h kind base (.str name) = h.isForeign kind base name := by
  unfold foreign
  rw [hentries]

/-- A change of the heap put a value into the place that a key names and made no other difference.
The host does not look after the place to read it. -/
def PutsAt (h h' : Heap) (base key v : Value) : Prop :=
  ∃ place, place? h base key = some place ∧ held? h' base place = some (.value v)
    ∧ foreign h' .get base key = false ∧ DiffersAt base place h h'

/-- Writing an entry of a record or a mapping puts the value under its key. -/
theorem putsAt_entry {h : Heap} {id : ObjectId} {old o : Object} {entries : Slots} {label : Value}
    (ho : h.object? id = some old) (hentries : h.entries? (.object id) = some entries)
    (hentries' : (h.put id o).entries? (.object id)
      = some (Slots.put entries (.ofValue key) label v))
    (hshell : o.shell = old.shell) : PutsAt h (h.put id o) (.object id) key v := by
  refine ⟨_, place?_of_entries? hentries key, ?_, foreign_of_entries? hentries' _ _,
    .entries ho hentries hentries' hshell fun j hj => ?_⟩
  · rw [held?, hentries', Option.bind_some, Slots.value?_put, if_pos rfl]
    rfl
  · rw [Slots.value?_put, if_neg hj]

/-- Replacing an item of a list puts the value at its index. -/
theorem putsAt_item {h : Heap} {id : ObjectId} {items : List Value} {index : Int} {i : Nat}
    (ho : h.object? id = some (.list items)) (hi : position? items.length index = some i)
    (v : Value) : PutsAt h (h.put id (.list (items.set i v))) (.object id) (.int index) v := by
  have hlt : i < items.length := (position?_eq_some_iff.mp hi).1
  refine ⟨.item i, ?_, ?_, ?_, .item ho i v⟩
  · rw [place?_of_entries?_none (Heap.entries?_list ho), sequence?_list ho]
    dsimp only
    rw [hi]
    rfl
  · rw [held?, sequence?_list (Heap.object?_put_self ho _), Option.bind_some,
      List.getElem?_set_self hlt]
    rfl
  · unfold foreign
    split
    · rename_i hname
      cases hname
    · rfl

/-- Setting an attribute puts the value under its name. -/
theorem exists_putsAt_attribute {name : String} (hapart : m.heap.AttributesApart)
    (hentries : m.heap.entries? base = none) (hown : m.heap.isForeign .set base name = false)
    (hset : on (Attribute.set base name v) m = (.ok true, m')) :
    ∃ h', m' = { m with heap := h' } ∧ PutsAt m.heap h' base (.str name) v := by
  obtain ⟨h', rfl, hfind, hread, hdiffers⟩ := Attribute.exists_differsAt_of_set hapart hown hset
  refine ⟨h', rfl, .attr name, place?_of_entries?_none hentries (.str name), hfind, ?_, hdiffers⟩
  unfold foreign
  split
  · rename_i hname
    cases hname
    exact hread
  · rfl

/-- A write that succeeds puts the value into the place that the key names and makes no other
difference. -/
theorem exists_putsAt_of_set (hapart : m.heap.AttributesApart) (hkey : m.heap.isPrimitive key = true)
    (hown : foreign m.heap .set base key = false) (hplain : NoAccessor m.heap base key v) {call : Caller}
    (hset : on (set call base key v .null) m = (.ok true, m')) :
    ∃ h', m' = { m with heap := h' } ∧ PutsAt m.heap h' base key v := by
  have hk := Heap.keyOf?_of_isPrimitive hkey
  cases m.heap.base base with
  | @record id kind slots parent frozen hbase ho =>
    subst hbase
    have hrecord : m.heap.isRecord (.object id) = true := by simp [Heap.isRecord, Heap.objectOf?, ho]
    -- Without a receiver of its own the write lands in the record it was addressed to.
    have hlanding : landing m.heap id (receiverOf (.object id) .null) = id := by
      unfold receiverOf landing
      rw [if_pos rfl]
      dsimp only
      rw [if_pos hrecord]
    rw [on_set_record call ho hk, (hplain id rfl hrecord).2] at hset
    dsimp only at hset
    rw [hlanding, on_writeOwn, ho] at hset
    cases frozen with
    | true => cases hset
    | false =>
      cases hset
      exact ⟨_, rfl, putsAt_entry ho (Heap.entries?_record ho)
        (Heap.entries?_record (Heap.object?_put_self ho _)) rfl⟩
  | @dict id entries hbase ho =>
    subst hbase
    rw [on_set_dict call ho hk] at hset
    cases hset
    exact ⟨_, rfl, putsAt_entry ho (Heap.entries?_dict ho)
      (Heap.entries?_dict (Heap.object?_put_self ho _)) rfl⟩
  | proxy hbase ho =>
    subst hbase
    rw [on_set_proxy call ho] at hset
    cases hset
  | list hbase ho =>
    subst hbase
    rw [on_set_list call ho] at hset
    split at hset
    · split at hset
      · rename_i i hi
        cases hset
        exact ⟨_, rfl, putsAt_item ho hi v⟩
      · cases hset
    · cases hset
  | other hentries hlist =>
    rw [on_set_attribute call hentries hlist] at hset
    split at hset
    · rename_i name
      rw [foreign_of_entries?_none hentries] at hown
      rw [if_neg (Bool.eq_false_iff.mp hown)] at hset
      exact exists_putsAt_attribute hapart hentries hown hset
    · cases hset

/-! ## Deletes -/

/-- What is not among the entries is not held under its key. -/
theorem held?_entry_eq_none {h : Heap} {entries : Slots} {k : Key}
    (hentries : h.entries? base = some entries) (hgone : Table.contains entries k = false) :
    held? h base (.entry k) = none := by
  rw [held?, hentries, Option.bind_some, Slots.value?,
    Option.not_isSome_iff_eq_none.mp (Bool.eq_false_iff.mp hgone)]
  rfl

/-- Taking an entry away leaves none under its key and makes no other difference. -/
theorem differsAt_erase {h : Heap} {id : ObjectId} {old o : Object} {entries : Slots} {k : Key}
    (ho : h.object? id = some old) (hentries : h.entries? (.object id) = some entries)
    (hentries' : (h.put id o).entries? (.object id) = some (Table.erase entries k))
    (hshell : o.shell = old.shell) :
    held? (h.put id o) (.object id) (.entry k) = none
      ∧ DiffersAt (.object id) (.entry k) h (h.put id o) := by
  refine ⟨held?_entry_eq_none hentries' ?_, .entries ho hentries hentries' hshell fun j hj => ?_⟩
  · rw [Table.contains_erase]
    simp
  · rw [Slots.value?, Table.find?_erase, if_neg hj]
    rfl

/-- A delete that succeeds on a base with entries leaves none under its key and makes no other
difference. Deleting once more succeeds and changes nothing. -/
theorem exists_differsAt_of_delete (hkey : m.heap.isPrimitive key = true) {entries : Slots}
    (hentries : m.heap.entries? base = some entries) {call : Caller}
    (hdelete : on (delete call base key) m = (.ok true, m')) :
    held? m'.heap base (.entry (.ofValue key)) = none ∧ on (delete call base key) m' = (.ok true, m')
      ∧ ∃ h', m' = { m with heap := h' } ∧ DiffersAt base (.entry (.ofValue key)) m.heap h' := by
  have hk := Heap.keyOf?_of_isPrimitive hkey
  have herased : Table.contains (Table.erase entries (.ofValue key)) (.ofValue key) = false := by
    rw [Table.contains_erase]
    simp
  -- Where nothing is under the key, nothing changes, and the delete is the same the next time.
  have hgone : m' = m → Table.contains entries (.ofValue key) = false →
      held? m'.heap base (.entry (.ofValue key)) = none ∧ on (delete call base key) m' = (.ok true, m')
        ∧ ∃ h', m' = { m with heap := h' } ∧ DiffersAt base (.entry (.ofValue key)) m.heap h' := by
    rintro rfl hcontains
    exact ⟨held?_entry_eq_none hentries hcontains, hdelete, _, rfl, .refl _ _ _⟩
  have hplace := place?_of_entries? hentries key
  cases m.heap.base base with
  | @record id kind slots parent frozen hbase ho =>
    subst hbase
    obtain rfl := Option.some.inj ((Heap.entries?_record ho).symm.trans hentries)
    rw [on_delete_record call ho hk] at hdelete
    split at hdelete
    · split at hdelete
      · cases hdelete
      · cases hdelete
        have hobject := Heap.object?_put_self ho
          (.record kind (Table.erase slots (.ofValue key)) parent frozen)
        obtain ⟨hheld, hdiffers⟩ := differsAt_erase ho hentries (Heap.entries?_record hobject) rfl
        have hk' := Heap.keyOf?_of_isPrimitive (hdiffers.isPrimitive hplace hkey)
        refine ⟨hheld, ?_, _, rfl, hdiffers⟩
        rw [on_delete_record call hobject hk', if_neg (Bool.eq_false_iff.mp herased)]
    · rename_i hcontains
      cases hdelete
      exact hgone rfl (Bool.eq_false_iff.mpr hcontains)
  | @dict id slots hbase ho =>
    subst hbase
    obtain rfl := Option.some.inj ((Heap.entries?_dict ho).symm.trans hentries)
    rw [on_delete_dict call ho hk] at hdelete
    cases hdelete
    have hobject := Heap.object?_put_self ho (.dict (Table.erase slots (.ofValue key)))
    obtain ⟨hheld, hdiffers⟩ := differsAt_erase ho hentries (Heap.entries?_dict hobject) rfl
    have hk' := Heap.keyOf?_of_isPrimitive (hdiffers.isPrimitive hplace hkey)
    refine ⟨hheld, ?_, _, rfl, hdiffers⟩
    rw [on_delete_dict call hobject hk', Table.erase_of_not_contains herased, Heap.put_self hobject]
  | @proxy id slots hbase ho =>
    subst hbase
    obtain rfl := Option.some.inj ((Heap.entries?_proxy ho).symm.trans hentries)
    have hanswer := hdelete
    rw [on_delete_proxy call ho hk, Prod.mk.injEq, Except.ok.injEq, Bool.not_eq_true'] at hanswer
    exact hgone hanswer.2.symm hanswer.1
  | list hbase ho =>
    subst hbase
    rw [Heap.entries?_list ho] at hentries
    cases hentries
  | other hnone hlist =>
    rw [hnone] at hentries
    cases hentries

/-! ## Sequences -/

/-- A base with items has no entries. -/
theorem entries?_eq_none_of_sequence? {h : Heap} {items : List Value}
    (hitems : sequence? h base = some items) : h.entries? base = none := by
  by_contra hkeyed
  obtain ⟨entries, hentries⟩ := Option.ne_none_iff_exists'.mp hkeyed
  rw [sequence?_eq_none_of_entries? hentries] at hitems
  cases hitems

/-- An index and its negative form name one item. -/
theorem place?_item_iff {h : Heap} {items : List Value} (hitems : sequence? h base = some items)
    (index : Int) (i : Nat) :
    place? h base (.int index) = some (.item i)
      ↔ i < items.length ∧ (index = i ∨ index = i - items.length) := by
  rw [place?_of_entries?_none (entries?_eq_none_of_sequence? hitems), hitems]
  dsimp only
  rw [Option.map_eq_some_iff, ← position?_eq_some_iff]
  simp

/-- A delete under an index changes nothing, and succeeds where there is no item. -/
theorem on_delete_of_sequence? (call : Caller) {items : List Value}
    (hitems : sequence? m.heap base = some items) (index : Int) :
    on (delete call base (.int index)) m
      = (.ok ((position? items.length index).bind fun i => items[i]?).isNone, m) := by
  rw [on_delete_of_entries?_none call (entries?_eq_none_of_sequence? hitems), hitems]
  dsimp only
  cases hposition : position? items.length index with
  | none => rfl
  | some i =>
    have hlt : i < items.length := (position?_eq_some_iff.mp hposition).1
    rw [Option.bind_some, List.getElem?_eq_getElem hlt]
    rfl

end Ordinary

/-! ## The main result -/

open Ordinary (NoAccessor foreign)

/-- A machine with a list of two items. -/
def withPair : Machine :=
  { Machine.blank with heap := (Machine.blank.heap.alloc (.list [.int 1, .int 2])).2 }

/-- A class whose objects serve reads. -/
def reader : HostClass :=
  { HostClass.plain with identity := 2, name := "Reader", offers := ⟨.method, .nothing, .nothing⟩ }

/-- A machine with a plain object of the host. -/
def withPlainObject : Machine :=
  { Machine.blank with heap := (Machine.blank.heap.alloc (.instance .plain)).2 }

end ChainScript
