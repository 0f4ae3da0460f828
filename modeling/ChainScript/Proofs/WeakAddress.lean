import ChainScript.Proofs.StoreCourse
import Mathlib.Data.List.Nodup

/-!
# A weak store by addresses

The entries of a store stand under the identities of their keys. What a weak store really has to
hand are the addresses of objects, and an address is no identity: when an object is gone, another
that is made later can be at its address. So every entry keeps a weak reference to its key beside
the value, and an entry counts only as long as its reference still leads to the object that is asked
for. An entry whose key is gone stays where it is until a callback of its reference removes it, or
until it is overwritten. The callback comes at any time or never, and it must not take away what has
come to stand under the address in the meantime.

`AddressLife` says what can happen to such a table. Its record is right for a finite map, as that of
a store whose entries stand under identities.
-/

namespace ChainScript

/-! ## Memory -/

/-- Which objects are there, each at an address of its own, and which have been there. -/
structure Memory where
  address? : Value → Option Nat
  been : List Value
  apart : ∀ {v w : Value} {a : Nat}, address? v = some a → address? w = some a → v = w
  known : ∀ {v : Value} {a : Nat}, address? v = some a → v ∈ been
  sole : ∀ {v : Value} {a : Nat}, address? v = some a → v.Sole

namespace Memory

/-- Nothing is there yet. -/
def empty : Memory where
  address? _ := none
  been := []
  apart := nofun
  known := nofun
  sole := nofun

/-- An object is gone. Its address is free. -/
def drop (mem : Memory) (v : Value) : Memory where
  address? w := if w = v then none else mem.address? w
  been := mem.been
  apart hv hw := by
    split at hv <;> split at hw
    case isFalse.isFalse => exact mem.apart hv hw
    all_goals contradiction
  known hv := by
    split at hv
    · cases hv
    · exact mem.known hv
  sole hv := by
    split at hv
    · cases hv
    · exact mem.sole hv

/-- An object is made at an address that is free. -/
def place (mem : Memory) (v : Value) (a : Nat) (hsole : v.Sole)
    (hfree : ∀ w, mem.address? w ≠ some a) : Memory where
  address? w := if w = v then some a else mem.address? w
  been := v :: mem.been
  apart {w x b} hw hx := by
    split at hw <;> split at hx
    case isTrue.isTrue e e' => exact e.trans e'.symm
    case isTrue.isFalse => cases hw; exact absurd hx (hfree x)
    case isFalse.isTrue => cases hx; exact absurd hw (hfree w)
    case isFalse.isFalse => exact mem.apart hw hx
  known hw := by
    split at hw
    case isTrue e => exact e ▸ List.mem_cons_self
    case isFalse => exact List.mem_cons_of_mem _ (mem.known hw)
  sole hw := by
    split at hw
    case isTrue e => exact e ▸ hsole
    case isFalse => exact mem.sole hw

end Memory

/-! ## Tables by address -/

/-- A weak reference to an object. No two are the same, even if they are to one object. -/
structure WeakRef where
  serial : Nat
  target : Value
deriving DecidableEq

/-- The entries of a weak store under the addresses of their keys, and the number of weak references
made so far. -/
structure AddressStore where
  data : Table Nat (WeakRef × Value)
  made : Nat

namespace AddressStore

/-- The entry for a key: the one under its address, if its reference leads to the key. -/
def held? (s : AddressStore) (mem : Memory) (key : Value) : Option (WeakRef × Value) := do
  let a ← mem.address? key
  let (ref, value) ← s.data.find? a
  if (mem.address? ref.target).isSome && ref.target = key then some (ref, value) else none

/-- Enters a value. An entry for the key keeps its reference, and a new one gets a new reference. -/
def enter (s : AddressStore) (mem : Memory) (key value : Value) : AddressStore :=
  match mem.address? key with
  | none => s
  | some a =>
    match s.held? mem key with
    | some (ref, _) => { s with data := s.data.insert a (ref, value) }
    | none => ⟨s.data.insert a (⟨s.made, key⟩, value), s.made + 1⟩

/-- Removes the entry for a key, if there is one. -/
def remove (s : AddressStore) (mem : Memory) (key : Value) : AddressStore :=
  match mem.address? key, s.held? mem key with
  | some a, some _ => { s with data := s.data.erase a }
  | _, _ => s

/-- The callback of a reference whose object is gone. It was made for an address, and removes the
entry that stands there only if that is its own. -/
def callback (s : AddressStore) (ref : WeakRef) (a : Nat) : AddressStore :=
  match s.data.find? a with
  | some (other, _) => if other = ref then { s with data := s.data.erase a } else s
  | none => s

/-- A call of a method: the answer, and what becomes of the table. No method clears a weak store. -/
def call (s : AddressStore) (mem : Memory) (store : Value) : StoreCall → Value × AddressStore
  | .get key default => (((s.held? mem key).map Prod.snd).getD (default.getD .undefined), s)
  | .set key value => (store, s.enter mem key value)
  | .has key => (.bool (s.held? mem key).isSome, s)
  | .delete key => (.bool (s.held? mem key).isSome, s.remove mem key)
  | .clear => (.undefined, s)

/-- The number of entries whose references still lead to an object. -/
def size (s : AddressStore) (mem : Memory) : Nat :=
  s.data.entries.countP fun entry => (mem.address? entry.2.1.target).isSome

/-- What an entry says of the object that its reference leads to, if it still leads to one. -/
def live? (mem : Memory) (entry : Nat × WeakRef × Value) : Option (Value × Value) :=
  (mem.address? entry.2.1.target).map fun _ => (entry.2.1.target, entry.2.2)

/-- The pairs that count. -/
def livePairs (s : AddressStore) (mem : Memory) : Pairs := s.data.entries.filterMap (live? mem)

/-- The table has the pairs of a finite map, in some order. An entry whose object is there stands
under the address of that object, and no reference is to an object that has never been. -/
structure Represents (s : AddressStore) (mem : Memory) (pairs : Pairs) : Prop where
  placed : ∀ entry ∈ s.data.entries, ∀ a, mem.address? entry.2.1.target = some a → a = entry.1
  known : ∀ entry ∈ s.data.entries, entry.2.1.target ∈ mem.been
  perm : (s.livePairs mem).Perm pairs

end AddressStore

/-- What can happen to a weak store that is kept by addresses, with a record of it, and the memory
and the table that are left. -/
inductive AddressLife (store : Value) (mem : Memory) (s : AddressStore) :
    List StoreEvent → Memory → AddressStore → Prop where
  | start : AddressLife store mem s [] mem s
  /-- An object is made, which has never been, at an address that no other has now. -/
  | born {events : List StoreEvent} {mem' : Memory} {s' : AddressStore} {v : Value} {a : Nat}
    (life : AddressLife store mem s events mem' s') (hnew : v ∉ mem'.been) (hsole : v.Sole)
    (hfree : ∀ w, mem'.address? w ≠ some a) :
    AddressLife store mem s events (mem'.place v a hsole hfree) s'
  /-- An object is gone. -/
  | died {events : List StoreEvent} {mem' : Memory} {s' : AddressStore} {v : Value} {a : Nat}
    (life : AddressLife store mem s events mem' s') (hlive : mem'.address? v = some a) :
    AddressLife store mem s (events ++ [.lost [v]]) (mem'.drop v) s'
  /-- A reference whose object is gone calls back. -/
  | callback {events : List StoreEvent} {mem' : Memory} {s' : AddressStore}
    (life : AddressLife store mem s events mem' s') (ref : WeakRef) (a : Nat)
    (hdead : mem'.address? ref.target = none) :
    AddressLife store mem s events mem' (s'.callback ref a)
  /-- A method is called about an object that is there. -/
  | call {events : List StoreEvent} {mem' : Memory} {s' : AddressStore} {c : StoreCall}
    {key : Value} {a : Nat} (life : AddressLife store mem s events mem' s') (hkey : c.key? = some key)
    (hlive : mem'.address? key = some a) :
    AddressLife store mem s (events ++ [.used (.call c) (some (.ok (s'.call mem' store c).1))]) mem'
      (s'.call mem' store c).2

/-! ## Pairs in another order -/

namespace Table

variable {κ ν : Type} [DecidableEq κ]

/-- Replacing the value of a key comes to taking it away and entering it anew, but for the order. -/
theorem perm_replaceEntry {k : κ} (v : ν) {entries : List (κ × ν)}
    (hn : (entries.map Prod.fst).Nodup) (hk : k ∈ entries.map Prod.fst) :
    (replaceEntry k v entries).Perm
      ((k, v) :: entries.filter fun entry => !decide (entry.1 = k)) := by
  induction entries with
  | nil => cases hk
  | cons entry rest ih =>
    obtain ⟨hout, hn'⟩ := List.nodup_cons.mp hn
    by_cases he : entry.1 = k
    · have hne : ∀ e ∈ rest, ¬e.1 = k := by
        intro e hmem heq
        exact hout (List.mem_map.mpr ⟨e, hmem, heq.trans he.symm⟩)
      have hsame : replaceEntry k v rest = rest :=
        (List.map_congr_left fun e hmem => if_neg (hne e hmem)).trans (List.map_id _)
      have hall : rest.filter (fun e => !decide (e.1 = k)) = rest :=
        List.filter_eq_self.mpr fun e hmem => by simpa using hne e hmem
      have hhead : replaceEntry k v (entry :: rest) = (k, v) :: replaceEntry k v rest := by
        simp [replaceEntry, he]
      rw [hhead, hsame, List.filter_cons_of_neg (by simpa using he), hall]
    · have hrest : k ∈ rest.map Prod.fst := by
        rcases List.mem_cons.mp hk with rfl | hrest
        · exact absurd rfl he
        · exact hrest
      have hhead : replaceEntry k v (entry :: rest) = entry :: replaceEntry k v rest := by
        simp [replaceEntry, he]
      rw [hhead, List.filter_cons_of_pos (by simpa using he)]
      exact ((ih hn' hrest).cons entry).trans (.swap ..)

/-- Entering a value puts it among the entries under other keys. -/
theorem perm_insert (t : Table κ ν) (k : κ) (v : ν) :
    (t.insert k v).entries.Perm ((k, v) :: (t.erase k).entries) := by
  unfold insert
  split
  case isTrue hk => exact perm_replaceEntry v t.nodup hk
  case isFalse hk =>
    have hall : (t.erase k).entries = t.entries :=
      List.filter_eq_self.mpr fun entry hmem => by
        simpa using fun heq : entry.1 = k => hk (heq ▸ List.mem_map_of_mem hmem)
    rw [hall]
    exact List.perm_append_singleton ..

/-- A table finds what it has. -/
theorem find?_of_mem {t : Table κ ν} {k : κ} {v : ν} (h : (k, v) ∈ t.entries) :
    t.find? k = some v := by
  obtain ⟨entries, hn⟩ := t
  show entries.lookup k = some v
  induction entries with
  | nil => cases h
  | cons entry rest ih =>
    obtain ⟨hout, hn'⟩ := List.nodup_cons.mp hn
    rcases List.mem_cons.mp h with rfl | hrest
    · exact lookup_cons_self ..
    · have hne : k ≠ entry.1 := by
        rintro rfl
        exact hout (List.mem_map.mpr ⟨_, hrest, rfl⟩)
      rw [lookup_cons_ne hne]
      exact ih hn' hrest

/-- What is found under a key is an entry. -/
theorem mem_of_find? {t : Table κ ν} {k : κ} {v : ν} (h : t.find? k = some v) :
    (k, v) ∈ t.entries := by
  obtain ⟨before, after, hsplit, -⟩ := List.lookup_eq_some_iff.mp h
  rw [hsplit]
  exact List.mem_append_right _ List.mem_cons_self

end Table

namespace Pairs

variable {pairs : Pairs} {key value : Value}

/-- In pairs with different keys, every one gives its key its value. -/
theorem value?_of_mem (hn : (pairs.map Prod.fst).Nodup) (hsole : key.Sole)
    (h : (key, value) ∈ pairs) : pairs.value? key = some value := by
  induction pairs with
  | nil => cases h
  | cons pair rest ih =>
    obtain ⟨hout, hn'⟩ := List.nodup_cons.mp hn
    rw [value?, List.find?_cons]
    rcases List.mem_cons.mp h with rfl | hrest
    · rw [(hsole _).mpr rfl]
      rfl
    · have hne : key.sameKey pair.1 = false := by
        rw [Bool.eq_false_iff]
        intro hsame
        refine hout (List.mem_map.mpr ⟨_, hrest, ?_⟩)
        exact (hsole _).mp hsame
      rw [hne]
      exact ih hn' hrest

/-- A key without a pair has no value. -/
theorem value?_of_not_mem (hsole : key.Sole) (h : key ∉ pairs.map Prod.fst) :
    pairs.value? key = none := by
  rw [value?, List.find?_eq_none.mpr]
  · rfl
  · intro pair hpair hsame
    exact h (List.mem_map.mpr ⟨pair, hpair, ((hsole _).mp hsame).symm⟩)

/-- Entering a value comes to removing the key and entering it anew, but for the order. -/
theorem perm_enter (hn : (pairs.map Prod.fst).Nodup) (hsole : key.Sole) :
    (pairs.enter key value).Perm ((key, value) :: pairs.remove key) := by
  have hdecide : ∀ pair : Value × Value, key.sameKey pair.1 = decide (pair.1 = key) := by
    intro pair
    rw [Bool.eq_iff_iff, hsole, decide_eq_true_iff]
    exact eq_comm
  have hany : ((pairs.any fun pair => key.sameKey pair.1) = true) ↔ key ∈ pairs.map Prod.fst := by
    rw [List.any_eq_true, List.mem_map]
    exact exists_congr fun pair => and_congr_right fun _ => (hsole _).trans eq_comm
  unfold enter remove
  split
  case isTrue hin =>
    simp only [hdecide]
    have hperm := Table.perm_replaceEntry value hn (hany.mp hin)
    simpa only [Table.replaceEntry, decide_eq_true_iff] using hperm
  case isFalse hout =>
    have hall : pairs.filter (fun pair => !key.sameKey pair.1) = pairs := by
      refine List.filter_eq_self.mpr fun pair hpair => ?_
      have hne : ¬key.sameKey pair.1 = true :=
        fun hsame => hout (List.any_eq_true.mpr ⟨pair, hpair, hsame⟩)
      simp [hne]
    rw [hall]
    exact List.perm_append_singleton ..

/-- Removing a key from the same pairs in another order leaves the same pairs. -/
theorem perm_remove {pairs' : Pairs} (h : pairs.Perm pairs') (key : Value) :
    (pairs.remove key).Perm (pairs'.remove key) := h.filter _

/-- So does losing keys. -/
theorem perm_without {pairs' : Pairs} (h : pairs.Perm pairs') (gone : List Value) :
    (pairs.without gone).Perm (pairs'.without gone) := h.filter _

end Pairs

/-! ## The table by addresses and the finite map -/

namespace AddressStore.Represents

variable {s : AddressStore} {mem : Memory} {pairs : Pairs} {key value : Value} {a : Nat}

/-- A pair that counts comes from an entry under the address of its key. -/
theorem mem_livePairs (hr : s.Represents mem pairs) (ha : mem.address? key = some a) :
    (key, value) ∈ s.livePairs mem
      ↔ ∃ ref, (a, ref, value) ∈ s.data.entries ∧ ref.target = key := by
  simp only [livePairs, List.mem_filterMap, live?, Option.map_eq_some_iff, Prod.mk.injEq]
  constructor
  · rintro ⟨⟨b, ref, v⟩, hentry, c, hc, htarget, rfl⟩
    have hb := hr.placed _ hentry c hc
    simp only at htarget hc hb hentry
    rw [htarget, ha] at hc
    cases hc
    exact ⟨ref, hb ▸ hentry, htarget⟩
  · rintro ⟨ref, hentry, htarget⟩
    exact ⟨_, hentry, a, htarget ▸ ha, htarget, rfl⟩

/-- Only one pair counts for a key, because an object has one address. -/
theorem nodup_livePairs (hr : s.Represents mem pairs) :
    ((s.livePairs mem).map Prod.fst).Nodup := by
  have hentries : s.data.entries.Pairwise fun e e' => e.1 ≠ e'.1 :=
    List.pairwise_map.mp s.data.nodup
  rw [List.Nodup, List.pairwise_map, livePairs, List.pairwise_filterMap]
  refine hentries.imp_of_mem fun {e e'} he he' hne pair hpair pair' hpair' heq => hne ?_
  obtain ⟨b, hb, rfl⟩ := Option.map_eq_some_iff.mp hpair
  obtain ⟨b', hb', rfl⟩ := Option.map_eq_some_iff.mp hpair'
  have hsame : e.2.1.target = e'.2.1.target := heq
  rw [← hr.placed e he b hb, ← hr.placed e' he' b' hb']
  rw [hsame, hb'] at hb
  exact (Option.some.inj hb).symm

/-- The pairs that a table represents have different keys. -/
theorem nodup (hr : s.Represents mem pairs) : (pairs.map Prod.fst).Nodup :=
  (hr.perm.map Prod.fst).nodup_iff.mp hr.nodup_livePairs

/-- A key has no pair if there is no entry for it under its address. -/
theorem not_mem_keys (hr : s.Represents mem pairs) (ha : mem.address? key = some a)
    (hnone : ∀ ref v, s.data.find? a = some (ref, v) → ref.target ≠ key) :
    key ∉ pairs.map Prod.fst := by
  intro hin
  obtain ⟨⟨_, v⟩, hpair, rfl⟩ := List.mem_map.mp hin
  obtain ⟨ref, hentry, htarget⟩ := (hr.mem_livePairs ha).mp (hr.perm.mem_iff.mpr hpair)
  exact hnone ref v (Table.find?_of_mem hentry) htarget

/-- The table finds the value that the finite map has for a key. -/
theorem value?_eq (hr : s.Represents mem pairs) (ha : mem.address? key = some a) :
    (s.held? mem key).map Prod.snd = pairs.value? key := by
  have hsole := mem.sole ha
  cases hfind : s.data.find? a with
  | none =>
    have hout : key ∉ pairs.map Prod.fst := hr.not_mem_keys ha fun ref v hfound => by
      rw [hfind] at hfound
      cases hfound
    rw [Pairs.value?_of_not_mem hsole hout]
    simp [held?, ha, hfind]
  | some found =>
    obtain ⟨ref, v⟩ := found
    by_cases htarget : ref.target = key
    · have hpair : (key, v) ∈ pairs :=
        hr.perm.mem_iff.mp ((hr.mem_livePairs ha).mpr ⟨ref, Table.mem_of_find? hfind, htarget⟩)
      rw [Pairs.value?_of_mem hr.nodup hsole hpair]
      simp [held?, ha, hfind, htarget]
    · -- Another object was at the address before, and its entry is still there.
      have hout : key ∉ pairs.map Prod.fst := hr.not_mem_keys ha fun ref' v' hfound => by
        rw [hfind] at hfound
        cases hfound
        exact htarget
      rw [Pairs.value?_of_not_mem hsole hout]
      simp [held?, ha, hfind, htarget]

/-- What is erased under the address of a key is the pair of the key. -/
theorem filterMap_erase (hr : s.Represents mem pairs) (ha : mem.address? key = some a) :
    (s.data.erase a).entries.filterMap (live? mem) = (s.livePairs mem).remove key := by
  rw [Table.erase, livePairs, Pairs.remove, List.filterMap_filter, List.filter_filterMap]
  refine List.filterMap_congr fun entry hentry => ?_
  have hsole := mem.sole ha
  cases hb : mem.address? entry.2.1.target with
  | none => simp [live?, hb]
  | some b =>
    have hplaced := hr.placed entry hentry b hb
    by_cases he : entry.1 = a
    · have htarget : key = entry.2.1.target := mem.apart ha (by rw [hb, hplaced, he])
      have hsame := (hsole _).mpr htarget
      simp [live?, hb, he, hsame, Option.filter]
    · have hne : key.sameKey entry.2.1.target = false := by
        rw [Bool.eq_false_iff]
        intro hsame
        rw [← (hsole _).mp hsame, ha] at hb
        exact he (hplaced.symm.trans (Option.some.inj hb).symm)
      simp [live?, hb, he, hne, Option.filter]

/-- Entries that are under other addresses stay right. -/
theorem mem_of_erase {entry : Nat × WeakRef × Value} (h : entry ∈ (s.data.erase a).entries) :
    entry ∈ s.data.entries := (List.mem_filter.mp h).1

/-- A key is removed from the table as from the finite map. -/
theorem erase (hr : s.Represents mem pairs) (ha : mem.address? key = some a) :
    Represents { s with data := s.data.erase a } mem (pairs.remove key) where
  placed entry h := hr.placed entry (mem_of_erase h)
  known entry h := hr.known entry (mem_of_erase h)
  perm := (List.Perm.of_eq (hr.filterMap_erase ha)).trans (Pairs.perm_remove hr.perm key)

/-- A value is entered in the table as in the finite map, with whatever reference to the key. -/
theorem insert (hr : s.Represents mem pairs) (ha : mem.address? key = some a) {ref : WeakRef}
    (href : ref.target = key) (value : Value) (made : Nat) :
    Represents ⟨s.data.insert a (ref, value), made⟩ mem (pairs.enter key value) := by
  have hinsert := s.data.perm_insert a (ref, value)
  have hentries : ∀ entry ∈ (s.data.insert a (ref, value)).entries,
      entry = (a, ref, value) ∨ entry ∈ s.data.entries := by
    intro entry h
    exact (List.mem_cons.mp (hinsert.mem_iff.mp h)).imp id mem_of_erase
  refine ⟨fun entry h b hb => ?_, fun entry h => ?_, ?_⟩
  · rcases hentries entry h with rfl | hold
    · rw [href, ha] at hb
      exact (Option.some.inj hb).symm
    · exact hr.placed entry hold b hb
  · rcases hentries entry h with rfl | hold
    · exact href ▸ mem.known ha
    · exact hr.known entry hold
  · have hlive : live? mem (a, ref, value) = some (key, value) := by simp [live?, href, ha]
    refine (hinsert.filterMap _).trans ?_
    rw [List.filterMap_cons_some hlive, hr.filterMap_erase ha]
    have hrest := (Pairs.perm_remove hr.perm key).cons (key, value)
    exact hrest.trans (Pairs.perm_enter hr.nodup (mem.sole ha)).symm

/-- The entry that is found for a key has a reference to the key. -/
theorem target_of_held? {found : WeakRef × Value} (h : s.held? mem key = some found) :
    found.1.target = key := by
  unfold held? at h
  simp only [Option.bind_eq_bind, Option.bind_eq_some_iff, Option.ite_none_right_eq_some] at h
  obtain ⟨b, -, ⟨ref, v⟩, -, hif, heq⟩ := h
  cases heq
  simp only [Bool.and_eq_true, decide_eq_true_eq] at hif
  exact hif.2

/-- Entering a value at an address represents entering it. -/
theorem enter (hr : s.Represents mem pairs) (ha : mem.address? key = some a) (value : Value) :
    (s.enter mem key value).Represents mem (pairs.enter key value) := by
  rw [AddressStore.enter, ha]
  cases hfound : s.held? mem key with
  | none => exact hr.insert ha rfl value _
  | some found => exact hr.insert ha (target_of_held? hfound) value _

/-- Removing an address represents removing its key. -/
theorem remove (hr : s.Represents mem pairs) (ha : mem.address? key = some a) :
    (s.remove mem key).Represents mem (pairs.remove key) := by
  have hvalue := hr.value?_eq ha
  rw [AddressStore.remove, ha]
  cases hfound : s.held? mem key with
  | some found => exact hr.erase ha
  | none =>
    -- Nothing is found, so there is nothing to remove from the finite map either.
    rw [hfound] at hvalue
    have hsame : pairs.remove key = pairs := by
      refine List.filter_eq_self.mpr fun pair hpair => ?_
      have hne : ¬key.sameKey pair.1 = true := by
        intro hsame
        have hin : (key, pair.2) ∈ pairs := by
          rw [((mem.sole ha) _).mp hsame]
          exact hpair
        rw [Pairs.value?_of_mem hr.nodup (mem.sole ha) hin] at hvalue
        cases hvalue
      simp [hne]
    rw [hsame]
    exact hr

/-- Calls are answered, and change the table, as by the finite map. -/
theorem call (hr : s.Represents mem pairs) {c : StoreCall} (hkey : c.key? = some key)
    (ha : mem.address? key = some a) (store : Value) :
    (s.call mem store c).1 = c.answer store pairs
      ∧ (s.call mem store c).2.Represents mem (c.next pairs) := by
  have hvalue := hr.value?_eq ha
  have hsome : (s.held? mem key).isSome = (pairs.value? key).isSome := by
    rw [← hvalue, Option.isSome_map]
  cases c with
  | get k default =>
    cases hkey
    exact ⟨by rw [AddressStore.call, hvalue]; rfl, hr⟩
  | set k value =>
    cases hkey
    exact ⟨rfl, hr.enter ha value⟩
  | has k =>
    cases hkey
    exact ⟨by rw [AddressStore.call, hsome]; rfl, hr⟩
  | delete k =>
    cases hkey
    exact ⟨by rw [AddressStore.call, hsome]; rfl, hr.remove ha⟩
  | clear => cases hkey

/-- A callback of a reference whose object is gone takes nothing away that counts. -/
theorem callback (hr : s.Represents mem pairs) {ref : WeakRef}
    (hdead : mem.address? ref.target = none) (a : Nat) :
    (s.callback ref a).Represents mem pairs := by
  rw [AddressStore.callback]
  cases hfind : s.data.find? a with
  | none => exact hr
  | some found =>
    obtain ⟨other, v⟩ := found
    simp only
    split
    case isFalse => exact hr
    case isTrue hsame =>
      refine ⟨fun entry h => hr.placed entry (mem_of_erase h),
        fun entry h => hr.known entry (mem_of_erase h), ?_⟩
      have hlive : (s.data.erase a).entries.filterMap (live? mem) = s.livePairs mem := by
        rw [Table.erase, livePairs, List.filterMap_filter]
        refine List.filterMap_congr fun entry hentry => ?_
        by_cases he : entry.1 = a
        · -- The entry under the address is the one whose reference calls back.
          have hentry' : (a, entry.2) ∈ s.data.entries := he ▸ hentry
          rw [Table.find?_of_mem hentry'] at hfind
          have htarget : entry.2.1 = ref := (congrArg Prod.fst (Option.some.inj hfind)).trans hsame
          simp [live?, he, htarget, hdead]
        · simp [he]
      exact (List.Perm.of_eq hlive).trans hr.perm

/-- The pair of an object that is gone does not count any more. -/
theorem drop (hr : s.Represents mem pairs) (v : Value) :
    s.Represents (mem.drop v) (pairs.without [v]) where
  placed entry hentry b hb := by
    simp only [Memory.drop] at hb
    split at hb
    · cases hb
    · exact hr.placed entry hentry b hb
  known := hr.known
  perm := by
    refine List.Perm.trans (List.Perm.of_eq ?_) (Pairs.perm_without hr.perm [v])
    rw [livePairs, livePairs, Pairs.without, List.filter_filterMap]
    refine List.filterMap_congr fun entry _ => ?_
    by_cases hv : entry.2.1.target = v
    · subst hv
      cases hb : mem.address? entry.2.1.target <;>
        simp [live?, Memory.drop, Option.filter, hb]
    · cases hb : mem.address? entry.2.1.target <;>
        simp [live?, Memory.drop, hv, Option.filter, hb]

/-- An object that is made brings no entry to life. -/
theorem place (hr : s.Represents mem pairs) {v : Value} (hnew : v ∉ mem.been) (hsole : v.Sole)
    (hfree : ∀ w, mem.address? w ≠ some a) : s.Represents (mem.place v a hsole hfree) pairs := by
  have hother : ∀ entry ∈ s.data.entries,
      (mem.place v a hsole hfree).address? entry.2.1.target = mem.address? entry.2.1.target := by
    intro entry hentry
    refine if_neg ?_
    rintro rfl
    exact hnew (hr.known entry hentry)
  refine ⟨fun entry hentry b hb => ?_, fun entry hentry => ?_, ?_⟩
  · rw [hother entry hentry] at hb
    exact hr.placed entry hentry b hb
  · exact List.mem_cons_of_mem _ (hr.known entry hentry)
  · refine List.Perm.trans (List.Perm.of_eq ?_) hr.perm
    refine List.filterMap_congr fun entry hentry => ?_
    rw [live?, live?, hother entry hentry]

/-- A table without entries represents the map without pairs. -/
theorem empty (mem : Memory) (made : Nat) : Represents ⟨.empty, made⟩ mem [] :=
  ⟨fun _ h => absurd h List.not_mem_nil, fun _ h => absurd h List.not_mem_nil, .refl _⟩

/-- The size is the number of pairs. -/
theorem size_eq (hr : s.Represents mem pairs) : s.size mem = pairs.length := by
  rw [← hr.perm.length_eq, livePairs, List.length_filterMap_eq_countP, size]
  refine List.countP_congr fun entry _ => ?_
  simp [live?]

end AddressStore.Represents

/-- The record of the life of a table by addresses is right for the finite map that it represents.
No object that is gone comes back, so no key that was lost is used again. -/
theorem AddressLife.course {store : Value} {mem mem' : Memory} {s s' : AddressStore} {pairs : Pairs}
    {events : List StoreEvent} (hr : s.Represents mem pairs)
    (life : AddressLife store mem s events mem' s') :
    ∃ pairs', s'.Represents mem' pairs' ∧ StoreCourse store pairs events pairs' := by
  -- What is lost has been, and is not there: so it is not what is made later.
  suffices h : ∃ pairs', s'.Represents mem' pairs' ∧ StoreCourse store pairs events pairs'
      ∧ ∀ v ∈ StoreEvent.gone events, v ∈ mem'.been ∧ mem'.address? v = none by
    obtain ⟨pairs', hr', course, -⟩ := h
    exact ⟨pairs', hr', course⟩
  induction life with
  | start => exact ⟨pairs, hr, .start, fun v hv => absurd hv List.not_mem_nil⟩
  | @born events mem₁ s₁ v a life hnew hsole hfree ih =>
    obtain ⟨pairs', hr', course, hlost⟩ := ih
    refine ⟨pairs', hr'.place hnew hsole hfree, course, fun w hw => ?_⟩
    obtain ⟨hbeen, hnone⟩ := hlost w hw
    have hne : w ≠ v := fun heq => hnew (heq ▸ hbeen)
    exact ⟨List.mem_cons_of_mem _ hbeen, (if_neg hne).trans hnone⟩
  | @died events mem₁ s₁ v a life hlive ih =>
    obtain ⟨pairs', hr', course, hlost⟩ := ih
    refine ⟨_, hr'.drop v, .lose course [v], fun w hw => ?_⟩
    rw [StoreEvent.gone_lose] at hw
    rcases List.mem_append.mp hw with hold | hnew
    · obtain ⟨hbeen, hnone⟩ := hlost w hold
      refine ⟨hbeen, ?_⟩
      simp only [Memory.drop]
      split
      · rfl
      · exact hnone
    · cases List.mem_singleton.mp hnew
      exact ⟨mem₁.known hlive, if_pos rfl⟩
  | callback life ref a hdead ih =>
    obtain ⟨pairs', hr', course, hlost⟩ := ih
    exact ⟨pairs', hr'.callback hdead a, course, hlost⟩
  | @call events mem₁ s₁ c key a life hkey hlive ih =>
    obtain ⟨pairs', hr', course, hlost⟩ := ih
    obtain ⟨hanswer, hnext⟩ := hr'.call hkey hlive store
    refine ⟨c.next pairs', hnext, ?_, fun w hw => hlost w ?_⟩
    · have hgone : key ∉ StoreEvent.gone events := by
        intro hin
        rw [(hlost key hin).2] at hlive
        cases hlive
      have huse : (StoreUse.call c).key? = some key := hkey
      rw [hanswer]
      exact .use course huse (mem₁.sole hlive) hgone
    · rwa [StoreEvent.gone_use] at hw

end ChainScript
