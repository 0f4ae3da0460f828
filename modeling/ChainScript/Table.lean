/-!
# Tables

A `Table` is a finite map that remembers the order in which its keys were first entered. Replacing a
value keeps the place of its key, and a removed key that is entered again goes to the end. Slots,
bindings, attributes and the entries of associative stores are all tables.

`find?` is the view in which the operations are stated: `find?_insert` and `find?_erase` say what
each does to every key.
-/

namespace ChainScript

/-- A finite map in order of entry. No key occurs twice. -/
structure Table (κ ν : Type) where
  entries : List (κ × ν) := []
  nodup : (entries.map Prod.fst).Nodup := by simp
deriving DecidableEq

namespace Table

variable {κ ν : Type}

/-- The table without entries. -/
def empty : Table κ ν := {}

instance : Inhabited (Table κ ν) := ⟨empty⟩

/-- Two tables with the same entries are equal. -/
theorem eq_of_entries {t u : Table κ ν} (h : t.entries = u.entries) : t = u := by
  cases t
  cases u
  congr

/-- The keys in order. -/
def keys (t : Table κ ν) : List κ := t.entries.map Prod.fst

/-- The values in order. -/
def values (t : Table κ ν) : List ν := t.entries.map Prod.snd

/-- The number of entries. -/
def size (t : Table κ ν) : Nat := t.entries.length

/-- Whether there is no entry. -/
def isEmpty (t : Table κ ν) : Bool := t.entries.isEmpty

variable [DecidableEq κ]

/-- The value of a key. -/
def find? (t : Table κ ν) (k : κ) : Option ν := t.entries.lookup k

/-- Whether a key has a value. -/
def contains (t : Table κ ν) (k : κ) : Bool := (t.find? k).isSome

/-- The entries with the value of one key replaced. -/
def replaceEntry (k : κ) (v : ν) (entries : List (κ × ν)) : List (κ × ν) :=
  entries.map fun entry => if entry.1 = k then (k, v) else entry

/-- Replacing a value keeps the keys. -/
theorem map_fst_replaceEntry (k : κ) (v : ν) (entries : List (κ × ν)) :
    (replaceEntry k v entries).map Prod.fst = entries.map Prod.fst := by
  induction entries with
  | nil => rfl
  | cons entry rest ih =>
    simp only [replaceEntry, List.map_cons, List.cons.injEq] at ih ⊢
    refine ⟨?_, ih⟩
    split
    · rename_i h; exact h.symm
    · rfl

/-- Gives a key a value: in the place of the key if it has one, and at the end otherwise. -/
def insert (t : Table κ ν) (k : κ) (v : ν) : Table κ ν :=
  if h : k ∈ t.entries.map Prod.fst then
    ⟨replaceEntry k v t.entries, by rw [map_fst_replaceEntry]; exact t.nodup⟩
  else
    ⟨t.entries ++ [(k, v)], by
      rw [List.map_append, List.map_singleton, List.nodup_append]
      refine ⟨t.nodup, by simp, ?_⟩
      intro a ha b hb
      rw [List.mem_singleton] at hb
      rintro rfl
      exact h (by rw [hb] at ha; exact ha)⟩

/-- Removes a key. -/
def erase (t : Table κ ν) (k : κ) : Table κ ν :=
  ⟨t.entries.filter fun entry => !decide (entry.1 = k),
    t.nodup.sublist (List.Sublist.map Prod.fst List.filter_sublist)⟩

/-- The table of a list of entries, a later one replacing an earlier one. -/
def ofList (entries : List (κ × ν)) : Table κ ν :=
  entries.foldl (fun t entry => t.insert entry.1 entry.2) empty

/-- Looking a key up past an entry with another key. -/
theorem lookup_cons_ne {j a : κ} (h : j ≠ a) (b : ν) (rest : List (κ × ν)) :
    ((a, b) :: rest).lookup j = rest.lookup j := by
  have hb : (j == a) = false := by simpa using h
  rw [List.lookup_cons, hb]

/-- Looking a key up in a list that opens with its entry. -/
theorem lookup_cons_self (a : κ) (b : ν) (rest : List (κ × ν)) :
    ((a, b) :: rest).lookup a = some b :=
  List.lookup_cons_self

/-- Looking a key up in a list of entries after the value of one was replaced. -/
theorem lookup_replaceEntry (k j : κ) (v : ν) (entries : List (κ × ν)) :
    (replaceEntry k v entries).lookup j
      = if j = k ∧ k ∈ entries.map Prod.fst then some v else entries.lookup j := by
  induction entries with
  | nil => simp [replaceEntry]
  | cons entry rest ih =>
    obtain ⟨a, b⟩ := entry
    have hstep : replaceEntry k v ((a, b) :: rest)
        = (if a = k then (k, v) else (a, b)) :: replaceEntry k v rest := rfl
    rw [hstep]
    by_cases ha : a = k
    · subst ha
      rw [if_pos rfl]
      by_cases hj : j = a
      · subst hj
        rw [lookup_cons_self]
        simp
      · rw [lookup_cons_ne hj, lookup_cons_ne hj, ih]
        simp [hj]
    · rw [if_neg ha]
      by_cases hj : j = a
      · subst hj
        rw [lookup_cons_self, lookup_cons_self]
        simp [ha]
      · rw [lookup_cons_ne hj, lookup_cons_ne hj, ih]
        have hmem : k ∈ ((a, b) :: rest).map Prod.fst ↔ k ∈ rest.map Prod.fst := by
          rw [List.map_cons, List.mem_cons]
          exact or_iff_right fun h => ha h.symm
        simp only [hmem]

/-- A key that was given a value has it, and every other key keeps its own. -/
theorem find?_insert (t : Table κ ν) (k j : κ) (v : ν) :
    (t.insert k v).find? j = if j = k then some v else t.find? j := by
  unfold insert
  split
  · rename_i h
    show (replaceEntry k v t.entries).lookup j = _
    rw [lookup_replaceEntry]
    by_cases hj : j = k
    · rw [if_pos ⟨hj, h⟩, if_pos hj]
    · rw [if_neg (fun hc => hj hc.1), if_neg hj]
      rfl
  · rename_i h
    show (t.entries ++ [(k, v)]).lookup j = _
    rw [List.lookup_append]
    by_cases hj : j = k
    · subst hj
      have hnone : t.entries.lookup j = none := by
        rw [List.lookup_eq_none_iff]
        intro p hp
        rw [bne_iff_ne]
        rintro rfl
        exact h (List.mem_map_of_mem hp)
      rw [hnone, lookup_cons_self, if_pos rfl]
      rfl
    · rw [lookup_cons_ne hj, if_neg hj]
      show (t.entries.lookup j).or none = t.entries.lookup j
      cases t.entries.lookup j <;> rfl

/-- A removed key has no value, and every other key keeps its own. -/
theorem find?_erase (t : Table κ ν) (k j : κ) :
    (t.erase k).find? j = if j = k then none else t.find? j := by
  show (t.entries.filter _).lookup j = if j = k then none else t.entries.lookup j
  induction t.entries with
  | nil => simp
  | cons entry rest ih =>
    obtain ⟨a, b⟩ := entry
    rw [List.filter_cons]
    by_cases ha : a = k
    · subst ha
      simp only [decide_true, Bool.not_true, Bool.false_eq_true, if_false]
      rw [ih]
      by_cases hj : j = a
      · rw [if_pos hj, if_pos hj]
      · rw [lookup_cons_ne hj]
    · simp only [ha, decide_false, Bool.not_false, if_true]
      by_cases hj : j = a
      · subst hj
        rw [lookup_cons_self, lookup_cons_self, if_neg ha]
      · rw [lookup_cons_ne hj, lookup_cons_ne hj, ih]

/-- A key that was given a value is there, with those that were. -/
theorem contains_insert (t : Table κ ν) (k j : κ) (v : ν) :
    (t.insert k v).contains j = (decide (j = k) || t.contains j) := by
  unfold contains
  rw [find?_insert]
  by_cases hj : j = k <;> simp [hj]

/-- A removed key is not there, and all others are that were. -/
theorem contains_erase (t : Table κ ν) (k j : κ) :
    (t.erase k).contains j = (decide (j ≠ k) && t.contains j) := by
  unfold contains
  rw [find?_erase]
  by_cases hj : j = k <;> simp [hj]

end Table

end ChainScript
