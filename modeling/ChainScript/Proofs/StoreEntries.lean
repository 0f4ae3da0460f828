import ChainScript.Proofs.Step
import ChainScript.Store

/-!
# The entries of a store as a finite map

A store is specified by a list of pairs, with a test for keys that are the same: primitives of one
type that are equal, and objects that are one object. Looking a key up, entering a value and
removing a key are plain list operations there. The store itself finds its entries under normal
forms of the keys. The two agree on every key but the one that is not a number, which is not even
the same as itself.

An entry stands under the normal form of its own label. No run breaks that: all that it does to the
entries of a store is to enter, to remove and to clear.
-/

namespace ChainScript

namespace Value

/-- Whether two values are the same key of a store. Numbers of one type are when they are equal, and
all other values when they are the same value, objects being told apart by their identity. -/
def sameKey : Value → Value → Bool
  | .float x, .float y => x.numEq y
  | a, b => a == b

end Value

/-- A key that is a number is a number in earnest. -/
def Value.IsKey (v : Value) : Prop := v ≠ .float .nan

instance (v : Value) : Decidable v.IsKey := inferInstanceAs (Decidable (v ≠ .float .nan))

/-- The normal form of a number is that number, or the positive zero for either zero. -/
theorem storeKey_float_eq_iff (x y : Binary64) :
    storeKey (.float x) = storeKey (.float y) ↔ x = y ∨ (x.isZero = true ∧ y.isZero = true) := by
  have hzero : (Binary64.zero false).isZero = true := rfl
  simp only [storeKey]
  by_cases hx : x.isZero = true <;> by_cases hy : y.isZero = true
  · simp [hx, hy]
  · have hxy : x ≠ y := fun h => hy (h ▸ hx)
    have hne : Binary64.zero false ≠ y := fun h => hy (h ▸ hzero)
    simp [hx, hy, hxy, hne]
  · have hxy : x ≠ y := fun h => hx (h ▸ hy)
    have hne : x ≠ Binary64.zero false := fun h => hx (h ▸ hzero)
    simp [hx, hy, hxy, hne]
  · simp [hx, hy]

/-- Two values have one normal form exactly when they are the same key. -/
theorem storeKey_eq_iff {a : Value} (ha : a.IsKey) (b : Value) :
    storeKey a = storeKey b ↔ a.sameKey b = true := by
  cases a with
  | float x =>
    cases b with
    | float y =>
      rw [storeKey_float_eq_iff]
      cases x with
      | nan => exact (ha rfl).elim
      | _ => simp [Value.sameKey, Binary64.numEq]
    | _ =>
      simp only [storeKey, Value.sameKey]
      split <;> simp
  | _ =>
    cases b with
    | float y =>
      simp only [storeKey, Value.sameKey]
      split <;> simp
    | _ => simp [storeKey, Value.sameKey]

/-! ## Lists of pairs -/

/-- A finite map in order of entry, as a list of keys with their values. -/
abbrev Pairs := List (Value × Value)

namespace Pairs

/-- The value of a key. -/
def value? (pairs : Pairs) (key : Value) : Option Value :=
  (pairs.find? fun pair => key.sameKey pair.1).map Prod.snd

/-- Gives a key a value: in the place of the key if it is there, and at the end otherwise. -/
def enter (pairs : Pairs) (key value : Value) : Pairs :=
  if pairs.any fun pair => key.sameKey pair.1 then
    pairs.map fun pair => if key.sameKey pair.1 then (key, value) else pair
  else pairs ++ [(key, value)]

/-- Removes a key. -/
def remove (pairs : Pairs) (key : Value) : Pairs :=
  pairs.filter fun pair => !key.sameKey pair.1

/-- What is there after a value was entered was there before, or is what was entered. -/
theorem mem_enter {pairs : Pairs} {key value : Value} {pair : Value × Value}
    (hpair : pair ∈ pairs.enter key value) : pair = (key, value) ∨ pair ∈ pairs := by
  unfold enter at hpair
  split at hpair
  · obtain ⟨old, hold, rfl⟩ := List.mem_map.mp hpair
    split
    · exact .inl rfl
    · exact .inr hold
  · exact (List.mem_append.mp hpair).symm.imp List.mem_singleton.mp id

end Pairs

namespace StoreEntries

/-- The keys and values that a store shows, in order. -/
def pairs (entries : StoreEntries) : Pairs := entries.values.map fun slot => (slot.label, slot.value)

/-- Every entry stands under the normal form of its label. -/
def Keyed (entries : StoreEntries) : Prop := ∀ entry ∈ entries.entries, entry.1 = storeKey entry.2.label

variable {entries : StoreEntries} {key : Value}

/-- In a keyed store, an entry stands under the normal form of a key exactly when its label is the
same key. -/
theorem Keyed.eq_storeKey_iff (he : entries.Keyed) (hk : key.IsKey) {entry : Value × Slot}
    (hentry : entry ∈ entries.entries) :
    entry.1 = storeKey key ↔ key.sameKey entry.2.label = true := by
  rw [he entry hentry, ← storeKey_eq_iff hk]
  exact eq_comm

/-- The empty table has its entries under their own keys. -/
theorem Keyed.empty : Keyed (.empty : StoreEntries) := fun _ h => nomatch h

/-- So has a table after a key was removed. -/
theorem Keyed.erase (he : entries.Keyed) (key : Value) :
    Keyed (Table.erase entries (storeKey key)) :=
  fun entry hentry => he entry (List.mem_filter.mp hentry).1

/-- So has a table after a value was entered. -/
theorem Keyed.put (he : entries.Keyed) (key value : Value) : (entries.put key value).Keyed := by
  intro entry hentry
  unfold StoreEntries.put Table.insert at hentry
  split at hentry
  · obtain ⟨old, hold, rfl⟩ := List.mem_map.mp hentry
    split
    · rfl
    · exact he old hold
  · rcases List.mem_append.mp hentry with hold | hnew
    · exact he entry hold
    · rw [List.mem_singleton.mp hnew]

/-- Whatever becomes of the entries of a store, they stay keyed. -/
theorem Keyed.change (he : entries.Keyed) {entries' : StoreEntries} (c : entries.Change entries') :
    entries'.Keyed := by
  cases c with
  | put key value => exact he.put key value
  | erase key => exact he.erase key
  | clear => exact .empty

/-- The pairs of a store are its entries without their normal forms. -/
theorem pairs_eq (entries : StoreEntries) :
    entries.pairs = entries.entries.map fun entry => (entry.2.label, entry.2.value) := by
  simp [pairs, Table.values]

/-- A store holds the value that the list of its pairs has for a key. -/
theorem value?_eq (he : entries.Keyed) (hk : key.IsKey) :
    entries.value? key = entries.pairs.value? key := by
  have hkeys : ∀ entry ∈ entries.entries, (entry.1 = storeKey key ↔ _) :=
    fun _ hentry => he.eq_storeKey_iff hk hentry
  rw [pairs_eq]
  show (entries.entries.lookup (storeKey key)).map Slot.value = _
  -- All that the induction on the entries needs is that each stands under its own normal form.
  generalize entries.entries = list at hkeys
  induction list with
  | nil => rfl
  | cons entry rest ih =>
    have hrest := ih fun e hmem => hkeys e (List.mem_cons_of_mem _ hmem)
    have hhead := hkeys entry List.mem_cons_self
    simp only [Pairs.value?, List.map_cons, List.find?_cons] at hrest ⊢
    by_cases hsame : key.sameKey entry.2.label = true
    · rw [hsame, ← hhead.mpr hsame, Table.lookup_cons_self]
      rfl
    · rw [Bool.not_eq_true] at hsame
      rw [hsame, Table.lookup_cons_ne, hrest]
      intro heq
      rw [hhead.mp heq.symm] at hsame
      cases hsame

/-- A store has an entry for a key exactly when the list of its pairs has one. -/
theorem mem_keys_iff (he : entries.Keyed) (hk : key.IsKey) :
    storeKey key ∈ entries.entries.map Prod.fst
      ↔ (entries.pairs.any fun pair => key.sameKey pair.1) = true := by
  rw [pairs_eq, List.any_map, List.any_eq_true, List.mem_map]
  refine exists_congr fun entry => and_congr_right fun hentry => ?_
  exact he.eq_storeKey_iff hk hentry

/-- Entering a value enters it in the list of pairs. -/
theorem pairs_put (he : entries.Keyed) (hk : key.IsKey) (value : Value) :
    (entries.put key value).pairs = entries.pairs.enter key value := by
  have hmem := mem_keys_iff he hk
  rw [pairs_eq]
  unfold StoreEntries.put Table.insert Pairs.enter
  by_cases hin : storeKey key ∈ entries.entries.map Prod.fst
  · -- The key is there: the entry under its normal form is the pair with the same key.
    rw [dif_pos hin, if_pos (hmem.mp hin), pairs_eq]
    simp only [Table.replaceEntry, List.map_map]
    refine List.map_congr_left fun entry hentry => ?_
    have hsame := he.eq_storeKey_iff hk hentry
    simp only [Function.comp_apply, hsame]
    split <;> rfl
  · rw [dif_neg hin, if_neg fun h => hin (hmem.mpr h), pairs_eq, List.map_append]
    rfl

/-- Removing a key removes it from the list of pairs. -/
theorem pairs_erase (he : entries.Keyed) (hk : key.IsKey) :
    pairs (Table.erase entries (storeKey key)) = entries.pairs.remove key := by
  rw [pairs_eq, pairs_eq, Pairs.remove, List.filter_map, Table.erase]
  refine congrArg (List.map _) (List.filter_congr fun entry hentry => ?_)
  have hsame : decide (entry.1 = storeKey key) = key.sameKey entry.2.label := by
    rw [Bool.eq_iff_iff, decide_eq_true_iff]
    exact he.eq_storeKey_iff hk hentry
  rw [hsame]
  rfl

/-- A store has as many pairs as entries. -/
theorem length_pairs (entries : StoreEntries) : entries.pairs.length = Table.size entries := by
  simp [pairs, Table.values, Table.size]

end StoreEntries

namespace Heap

/-- The entries of every store, weak or not, are keyed. -/
def StoresKeyed (h : Heap) : Prop :=
  ∀ (id : ObjectId) (o : Object) (entries : StoreEntries),
    h.object? id = some o → o.storeEntries? = some entries → entries.Keyed

/-- A new store is keyed, since it has no entries. -/
theorem keyed_of_fresh {globals : ObjectId} {h : Heap} {o : Object} {entries : StoreEntries}
    (ho : o.Fresh globals h) (he : o.storeEntries? = some entries) : entries.Keyed := by
  have hempty : Table.isEmpty entries = true := by
    cases o with
    | store | weakStore => cases he; exact ho
    | _ => cases he
  rw [Table.isEmpty, List.isEmpty_iff] at hempty
  intro entry hentry
  rw [hempty] at hentry
  cases hentry

/-- No step of the heap leaves a store that is not keyed. -/
theorem StoresKeyed.step {guard : Guard} {globals : ObjectId} {h h' : Heap} (hk : h.StoresKeyed)
    (s : Step guard globals h h') : h'.StoresKeyed := by
  intro id o entries ho he
  rcases s.object?_inv ho with ⟨old, hold, rfl | hc | ⟨-, _, _, _, -, rfl, -⟩⟩ | hfresh
  · exact hk id o entries hold he
  · obtain ⟨before, hbefore, rfl | hchange⟩ := hc.storeEntries?_inv he
    · exact hk id old entries hold hbefore
    · exact (hk id old before hold hbefore).change hchange
  · cases he
  · exact keyed_of_fresh hfresh he

/-- Neither does replacing an object by one that is no store. -/
theorem StoresKeyed.put {h : Heap} (hk : h.StoresKeyed) (id : ObjectId) {o : Object}
    (ho : o.storeEntries? = none) : (h.put id o).StoresKeyed := by
  intro j o' entries hj he
  rw [object?_put] at hj
  split at hj
  · obtain ⟨old, -, rfl⟩ := Option.map_eq_some_iff.mp hj
    rw [ho] at he
    cases he
  · exact hk j o' entries hj he

end Heap

end ChainScript
