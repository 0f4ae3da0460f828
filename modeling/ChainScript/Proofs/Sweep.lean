import ChainScript.Proofs.Reachability

/-!
# What a sweep leaves

A weak store does not hold its keys, but it holds a value while the key is there, and that value may
be what leads to the key of another entry. So whether an entry stays depends on the entries that
stay. `Heap.Alive` settles it: an object is alive if it belongs to objects that sustain one another,
each of them being reachable where weak stores have entries for no others.

`Heap.sweep` goes in rounds and drops more in each. It ends in the heap in which the weak stores
have their entries for the objects that are alive, all of them, and none besides.
-/

namespace ChainScript

namespace Value

/-- Whether an entry for a key stays where the given objects are alive. What is no object cannot
die. -/
def keptBy (alive : ObjectId → Bool) : Value → Bool
  | .object id => alive id
  | _ => true

end Value

/-- The entries for the objects that are alive. -/
def StoreEntries.keeping (entries : StoreEntries) (alive : ObjectId → Bool) : StoreEntries :=
  ⟨entries.entries.filter fun entry => entry.1.keptBy alive,
    entries.nodup.sublist (List.Sublist.map Prod.fst List.filter_sublist)⟩

/-- A weak store with its entries for the objects that are alive, and any other object as it is. -/
def Object.keeping (alive : ObjectId → Bool) : Object → Object
  | .weakStore entries => .weakStore (entries.keeping alive)
  | o => o

/-- A cell whose object is treated so. -/
def Cell.keeping (alive : ObjectId → Bool) (cell : Cell) : Cell :=
  { cell with object := cell.object.keeping alive }

/-- The heap in which weak stores have their entries for the objects that are alive. -/
def Heap.keeping (h : Heap) (alive : ObjectId → Bool) : Heap :=
  { h with cells := h.cells.map (Cell.keeping alive) }

namespace Heap

variable {h : Heap} {roots : List Value} {a b alive : ObjectId → Bool} {id : ObjectId}

/-! ## Keeping entries -/

/-- Keeping what is alive removes no object from its place. -/
@[simp] theorem size_keeping : (h.keeping alive).size = h.size := by simp [keeping, size]

/-- What is kept of an object is the object without its dead entries. -/
theorem object?_keeping (id : ObjectId) :
    (h.keeping alive).object? id = (h.object? id).map (Object.keeping alive) := by
  simp [keeping, object?, Function.comp_def, Cell.keeping]

/-- Attributes are kept. -/
theorem attributes_keeping (v : Value) : (h.keeping alive).attributes v = h.attributes v := by
  cases v with
  | object id => simp [attributes, keeping, Function.comp_def, Cell.keeping]
  | _ => rfl

/-- What is kept of what was kept. -/
theorem keeping_keeping : (h.keeping a).keeping b = h.keeping fun id => a id && b id := by
  have hkey : ∀ v : Value, (v.keptBy a && v.keptBy b) = v.keptBy fun id => a id && b id := by
    intro v
    cases v <;> rfl
  have hobject : ∀ o : Object, (o.keeping a).keeping b = o.keeping fun id => a id && b id := by
    intro o
    cases o with
    | weakStore entries =>
      simp only [Object.keeping, StoreEntries.keeping, List.filter_filter, ← hkey, Bool.and_comm]
    | _ => rfl
  simp only [keeping, Array.map_map]
  refine congrArg (fun cells => { h with cells }) (Array.map_congr_left ?_)
  intro cell _
  simp [Cell.keeping, hobject]

/-- Whatever is kept, a heap that keeps everything stays as it is. -/
theorem keeping_of_all (hall : ∀ id, alive id = true) : h.keeping alive = h := by
  have hkey : ∀ v : Value, v.keptBy alive = true := by
    intro v
    cases v with
    | object id => exact hall id
    | _ => rfl
  have hcell : ∀ cell : Cell, cell.keeping alive = cell := by
    rintro ⟨o, attributes⟩
    cases o with
    | weakStore entries =>
      have hentries : entries.keeping alive = entries :=
        Table.eq_of_entries (List.filter_eq_self.mpr fun entry _ => hkey entry.1)
      rw [Cell.keeping, Object.keeping, hentries]
    | _ => rfl
  rw [keeping, funext hcell, Array.map_id_fun']
  rfl

/-- An object refers to no more where fewer entries are kept. -/
theorem references_keeping_subset (hab : ∀ id, a id = true → b id = true) (o : Object) :
    (o.keeping a).references ⊆ (o.keeping b).references := by
  cases o with
  | weakStore entries =>
    intro v hv
    simp only [Object.keeping, Object.references, StoreEntries.keeping, Table.values, List.map_map,
      List.mem_map, List.mem_filter] at hv ⊢
    obtain ⟨entry, ⟨hentry, hkept⟩, rfl⟩ := hv
    refine ⟨entry, ⟨hentry, ?_⟩, rfl⟩
    revert hkept
    cases entry.1 with
    | object id => exact hab id
    | _ => exact fun _ => rfl
  | _ => exact fun _ hv => hv

/-- Nothing becomes reachable where fewer entries are kept. -/
theorem Reaches.mono (hab : ∀ id, a id = true → b id = true)
    (hr : (h.keeping a).Reaches roots id) : (h.keeping b).Reaches roots id := by
  induction hr with
  | root hid => exact .root hid
  | @step id next _ hnext ih =>
    refine .step ih ?_
    simp only [successors, keeping, Array.getElem?_map] at hnext ⊢
    cases hcell : h.cells[id]? with
    | none => simp [hcell] at hnext
    | some cell =>
      simp only [hcell, Option.map_some, List.mem_filterMap, Cell.keeping] at hnext ⊢
      obtain ⟨v, hv, hid⟩ := hnext
      refine ⟨v, ?_, hid⟩
      rcases List.mem_append.mp hv with hv | hv
      · exact List.mem_append_left _ (references_keeping_subset hab cell.object hv)
      · exact List.mem_append_right _ hv

/-! ## Counting entries -/

/-- The number of entries if the object is a weak store. -/
def weakSize (cell : Cell) : Nat :=
  match cell.object with
  | .weakStore entries => Table.size entries
  | _ => 0

/-- The weak entries of a heap are those of its objects together. -/
theorem weakEntries_eq : h.weakEntries = (h.cells.toList.map weakSize).sum := by
  have hfold : ∀ (f : Nat → Cell → Nat), (∀ n cell, f n cell = n + weakSize cell) →
      ∀ (cells : List Cell) (n : Nat), cells.foldl f n = n + (cells.map weakSize).sum := by
    intro f hf cells
    induction cells with
    | nil => exact fun n => rfl
    | cons cell cells ih =>
      intro n
      rw [List.foldl_cons, ih, hf, List.map_cons, List.sum_cons, Nat.add_assoc]
  rw [weakEntries, ← Array.foldl_toList]
  refine (hfold _ (fun n cell => ?_) _ 0).trans (Nat.zero_add _)
  cases ho : cell.object <;> simp only [weakSize, ho, Nat.add_zero]

/-- A cell has no more entries than before, and as many only if it lost none. -/
theorem weakSize_keeping (alive : ObjectId → Bool) (cell : Cell) :
    weakSize (cell.keeping alive) ≤ weakSize cell
      ∧ (weakSize (cell.keeping alive) = weakSize cell → cell.keeping alive = cell) := by
  obtain ⟨o, attributes⟩ := cell
  cases o with
  | weakStore entries =>
    refine ⟨List.length_filter_le .., fun heq => ?_⟩
    have hentries : entries.keeping alive = entries :=
      Table.eq_of_entries (List.filter_sublist.eq_of_length heq)
    rw [Cell.keeping, Object.keeping, hentries]
  | _ => exact ⟨Nat.le_refl _, fun _ => rfl⟩

/-- A heap has no more entries than before, and as many only if it lost none. -/
theorem weakEntries_keeping (h : Heap) (alive : ObjectId → Bool) :
    (h.keeping alive).weakEntries ≤ h.weakEntries
      ∧ ((h.keeping alive).weakEntries = h.weakEntries → h.keeping alive = h) := by
  have hcells : ∀ cells : List Cell,
      ((cells.map (Cell.keeping alive)).map weakSize).sum ≤ (cells.map weakSize).sum
        ∧ (((cells.map (Cell.keeping alive)).map weakSize).sum = (cells.map weakSize).sum →
          cells.map (Cell.keeping alive) = cells) := by
    intro cells
    induction cells with
    | nil => exact ⟨Nat.le_refl _, fun _ => rfl⟩
    | cons cell cells ih =>
      obtain ⟨hle, heq⟩ := weakSize_keeping alive cell
      simp only [List.map_cons, List.sum_cons]
      refine ⟨Nat.add_le_add hle ih.1, fun hsum => ?_⟩
      have hhead := heq (by omega)
      have hrest := ih.2 (by omega)
      rw [hhead, hrest]
  have hlist : (h.keeping alive).cells.toList = h.cells.toList.map (Cell.keeping alive) := by
    simp [keeping]
  rw [weakEntries_eq, weakEntries_eq, hlist]
  refine ⟨(hcells _).1, fun heq => ?_⟩
  have hsame := (hcells _).2 heq
  rw [← hlist] at hsame
  exact congrArg (fun cells => { h with cells }) (Array.toList_inj.mp hsame)

/-! ## What is alive -/

/-- The objects sustain one another: each is reachable where weak stores have entries for no others.
-/
def Sustains (h : Heap) (roots : List Value) (alive : ObjectId → Bool) : Prop :=
  ∀ id < h.size, alive id = true → (h.keeping alive).Reaches roots id

/-- The object belongs to objects that sustain one another. -/
def Alive (h : Heap) (roots : List Value) (id : ObjectId) : Prop :=
  ∃ alive, h.Sustains roots alive ∧ alive id = true

/-- What is alive is reachable. -/
theorem Alive.reaches (ha : h.Alive roots id) (hid : id < h.size) : h.Reaches roots id := by
  obtain ⟨alive, hs, halive⟩ := ha
  have hr := (hs id hid halive).mono (b := fun _ => true) fun _ _ => rfl
  rwa [keeping_of_all fun _ => rfl] at hr

/-! ## Rounds -/

/-- The marks of what is reachable, where what is not there is passed by. -/
def passed (h : Heap) (roots : List Value) (id : ObjectId) : Bool :=
  (h.reachable roots).getD id true

/-- The pass of the collector marks what can be reached. -/
theorem passed_iff : h.passed roots id = true ↔ (id < h.size → h.Reaches roots id) := by
  by_cases hid : id < h.size
  · exact (marked_reachable_iff hid).trans ⟨fun hr _ => hr, fun hr => hr hid⟩
  · refine iff_of_true ?_ fun hlt => absurd hlt hid
    have hsize : (h.reachable roots).size = h.size := by
      rw [reachable_eq, size_mark, Array.size_replicate]
    simp [passed, Array.getD_eq_getD_getElem?, hsize, Nat.not_lt.mp hid]

/-- Erasing the keys that are not alive leaves the others. -/
theorem liveEntries_eq (marks : Array Bool) (entries : StoreEntries) :
    liveEntries marks entries = entries.keeping fun id => marks.getD id true := by
  have hfold : ∀ (keys : List Value) (t : StoreEntries),
      (keys.foldl (fun t key => Table.erase t key) t).entries
        = t.entries.filter fun entry => !decide (entry.1 ∈ keys) := by
    intro keys
    induction keys with
    | nil => exact fun t => (List.filter_eq_self.mpr fun entry _ => by simp).symm
    | cons key keys ih =>
      intro t
      rw [List.foldl_cons, ih, Table.erase, List.filter_filter]
      refine List.filter_congr fun entry _ => ?_
      simp [Bool.and_comm]
  refine Table.eq_of_entries ?_
  rw [liveEntries, hfold]
  refine List.filter_congr fun entry hentry => ?_
  have hkey : entry.1 ∈ Table.keys entries := List.mem_map_of_mem hentry
  rw [Bool.eq_iff_iff]
  simp only [Bool.not_eq_true', decide_eq_false_iff_not, List.mem_filter, hkey, true_and]
  cases entry.1 with
  | object id => simp [Value.keptBy]
  | _ => simp [Value.keptBy]

/-- One round drops the entries for what is not reachable. -/
theorem sweepRounds_succ (n : Nat) : sweepRounds (n + 1) roots h
    = if (h.keeping (h.passed roots)).weakEntries = h.weakEntries then h.keeping (h.passed roots)
      else sweepRounds n roots (h.keeping (h.passed roots)) := by
  have hif : ∀ swept, swept = h.keeping (h.passed roots) →
      (if swept.weakEntries = h.weakEntries then swept else sweepRounds n roots swept)
        = if (h.keeping (h.passed roots)).weakEntries = h.weakEntries then h.keeping (h.passed roots)
          else sweepRounds n roots (h.keeping (h.passed roots)) := by
    rintro _ rfl
    rfl
  rw [sweepRounds]
  refine hif _ (congrArg (fun cells => { h with cells }) ?_)
  refine Array.map_congr_left ?_
  rintro ⟨o, attributes⟩ _
  cases o with
  | weakStore entries =>
    simp only [liveEntries_eq]
    rfl
  | _ => rfl

/-- What a round preserves holds in the end, and another round would change nothing. There are
rounds enough, since each but the last drops an entry. -/
theorem sweepRounds_spec {P : Heap → Prop}
    (hstep : ∀ h, P h → P (h.keeping (h.passed roots))) :
    ∀ (n : Nat) (h : Heap), h.weakEntries < n → P h →
      P (sweepRounds n roots h)
        ∧ (sweepRounds n roots h).keeping ((sweepRounds n roots h).passed roots)
          = sweepRounds n roots h := by
  intro n
  induction n with
  | zero => exact fun h hn => absurd hn (Nat.not_lt_zero _)
  | succ n ih =>
    intro h hn hp
    obtain ⟨hle, heq⟩ := weakEntries_keeping h (h.passed roots)
    rw [sweepRounds_succ]
    split
    case isTrue hsame =>
      rw [heq hsame]
      exact ⟨hp, heq hsame⟩
    case isFalse hne => exact ih _ (by omega) (hstep h hp)

/-- A sweep keeps the entries for what is alive. -/
theorem sweep_eq (h : Heap) (roots : List Value) :
    ∃ alive : ObjectId → Bool, (∀ id, alive id = true ↔ h.Alive roots id)
      ∧ h.sweep roots = h.keeping alive := by
  -- Every round starts from a heap that keeps all that is alive, and that keeps whatever it
  -- reaches.
  let P (k : Heap) : Prop := ∃ a, k = h.keeping a ∧ (∀ id, h.Alive roots id → a id = true)
    ∧ ∀ id, k.passed roots id = true → a id = true
  have hround : ∀ k, P k → k.keeping (k.passed roots) = h.keeping (k.passed roots)
      ∧ ∀ id, h.Alive roots id → k.passed roots id = true := by
    rintro k ⟨a, rfl, halive, hpassed⟩
    constructor
    · rw [keeping_keeping]
      refine congrArg h.keeping (funext fun id => ?_)
      have hp := hpassed id
      cases h1 : (h.keeping a).passed roots id with
      | false => simp
      | true => simp [hp h1]
    · rintro id ⟨alive, hs, hid⟩
      refine passed_iff.mpr fun hlt => ?_
      rw [size_keeping] at hlt
      exact (hs id hlt hid).mono fun j hj => halive j ⟨alive, hs, hj⟩
  have hstep : ∀ k, P k → P (k.keeping (k.passed roots)) := by
    intro k hk
    obtain ⟨heq, halive⟩ := hround k hk
    obtain ⟨a, hka, -, hpassed⟩ := hk
    refine ⟨k.passed roots, heq, halive, fun id hid => passed_iff.mpr fun hlt => ?_⟩
    have hr := passed_iff.mp hid (by rw [size_keeping]; exact hlt)
    rw [heq] at hr
    have hr' := hr.mono hpassed
    rwa [← hka] at hr'
  have hstart : P h := ⟨fun _ => true, (keeping_of_all fun _ => rfl).symm, fun _ _ => rfl,
    fun _ _ => rfl⟩
  have hend : P (h.sweep roots)
      ∧ (h.sweep roots).keeping ((h.sweep roots).passed roots) = h.sweep roots := by
    rw [sweep]
    split
    case isTrue hzero =>
      obtain ⟨hle, heq⟩ := weakEntries_keeping h (h.passed roots)
      exact ⟨hstart, heq (by omega)⟩
    case isFalse hsome => exact sweepRounds_spec hstep _ h (Nat.lt_succ_self _) hstart
  obtain ⟨hp, hsame⟩ := hend
  obtain ⟨heq, halive⟩ := hround _ hp
  rw [hsame] at heq
  refine ⟨(h.sweep roots).passed roots, fun id => ⟨fun hid => ?_, halive id⟩, heq⟩
  -- What is reachable in the end sustains itself.
  refine ⟨(h.sweep roots).passed roots, fun j hj hpassed => ?_, hid⟩
  rw [← heq]
  refine passed_iff.mp hpassed ?_
  rwa [heq, size_keeping]

end Heap

end ChainScript
