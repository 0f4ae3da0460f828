import ChainScript.Heap.Reach
import Mathlib.Algebra.GroupWithZero.Nat

/-!
# Reachability

`Heap.Reaches` says what reachability is: a chain of strong references leads from a root to an
object. Marking finds exactly the objects of which that holds, in the steps that it is given.
-/

namespace ChainScript

namespace Heap

/-- A chain of strong references leads to an object from a root. -/
inductive Reaches (h : Heap) (roots : List Value) : ObjectId → Prop where
  | root {id : ObjectId} (hid : .object id ∈ roots ++ h.roots) :
    Reaches h roots id
  | step {id next : ObjectId} (hid : Reaches h roots id) (hnext : next ∈ h.successors id) :
    Reaches h roots next

variable {h : Heap} {roots : List Value} {id next : ObjectId}

/-! ## Marking -/

/-- Whether marking passes an object by: it is marked, or there is no such object. -/
def Marked (marks : Array Bool) (id : ObjectId) : Prop := marks.getD id true = true

/-- After one more mark, that place is marked and so are those that were. -/
theorem marked_set (marks : Array Bool) (id j : ObjectId) :
    Marked (marks.set! id true) j ↔ j = id ∨ Marked marks j := by
  simp only [Marked, Array.set!_eq_setIfInBounds, Array.getD_eq_getD_getElem?,
    Array.getElem?_setIfInBounds]
  by_cases hj : id = j
  · subst hj
    by_cases hlt : id < marks.size <;> simp [hlt]
  · have hne : j ≠ id := fun e => hj e.symm
    simp [hj, hne]

/-- Only places that are there can be unmarked. -/
theorem lt_size_of_not_marked {marks : Array Bool} (hid : ¬Marked marks id) : id < marks.size := by
  refine Nat.lt_of_not_le fun hge => hid ?_
  simp [Marked, Array.getD_eq_getD_getElem?, hge]

/-- An object that is not there refers to nothing. -/
theorem successors_of_size_le (hid : h.size ≤ id) : h.successors id = [] := by
  have hnone : h.cells[id]? = none := Array.getElem?_eq_none hid
  simp [successors, hnone]

/-- The references that marking has still to follow. -/
def unfollowed (h : Heap) (marks : Array Bool) : Nat :=
  ((List.range h.size).map fun id =>
    if marks.getD id true then 0 else (h.successors id).length).sum

/-- Marking an object leaves its own references fewer to follow. -/
theorem unfollowed_set {marks : Array Bool} (hid : ¬Marked marks id) (hlt : id < h.size) :
    h.unfollowed marks = (h.successors id).length + h.unfollowed (marks.set! id true) := by
  have hprefix : ∀ n, ((List.range n).map fun j =>
        if marks.getD j true then 0 else (h.successors j).length).sum
      = (if id < n then (h.successors id).length else 0)
        + ((List.range n).map fun j =>
          if (marks.set! id true).getD j true then 0 else (h.successors j).length).sum := by
    intro n
    induction n with
    | zero => rfl
    | succ n ih =>
      simp only [List.range_succ, List.map_append, List.sum_append, List.map_cons, List.map_nil,
        List.sum_cons, List.sum_nil]
      have hn := marked_set marks id n
      rw [ih]
      by_cases he : n = id
      · subst he
        have hset : (marks.set! n true).getD n true = true := hn.mpr (.inl rfl)
        have hunset : ¬marks.getD n true = true := hid
        rw [if_neg hunset, if_pos hset, if_neg (Nat.lt_irrefl n), if_pos (Nat.lt_succ_self n)]
        omega
      · have hsame : (marks.set! id true).getD n true = true ↔ marks.getD n true = true :=
          hn.trans (or_iff_right he)
        have hbelow : id < n + 1 ↔ id < n :=
          Nat.lt_succ_iff_lt_or_eq.trans (or_iff_left fun e => he e.symm)
        simp only [hsame, hbelow]
        omega
  have hall := hprefix h.size
  rw [if_pos hlt] at hall
  exact hall

/-- What is marked has every property that the work at hand has, and that references pass on. -/
theorem mark_sound {P : ObjectId → Prop}
    (hclosed : ∀ id, P id → ∀ next ∈ h.successors id, P next) :
    ∀ (fuel : Nat) (work : List ObjectId) (marks : Array Bool), (∀ id ∈ work, P id) →
      (∀ id < h.size, Marked marks id → P id) →
      ∀ id < h.size, Marked (h.mark fuel work marks) id → P id := by
  intro fuel
  induction fuel with
  | zero => exact fun _ _ _ hmarks => hmarks
  | succ fuel ih =>
    intro work marks hwork hmarks
    cases work with
    | nil => exact hmarks
    | cons id work =>
      have hid := hwork id List.mem_cons_self
      have hrest : ∀ j ∈ work, P j := fun j hj => hwork j (List.mem_cons_of_mem _ hj)
      rw [mark]
      split
      · exact ih work marks hrest hmarks
      · refine ih _ _ (fun j hj => ?_) (fun j hj hmarked => ?_)
        · rcases List.mem_append.mp hj with hnext | hj
          · exact hclosed id hid j hnext
          · exact hrest j hj
        · rcases (marked_set marks id j).mp hmarked with rfl | hmarked
          · exact hid
          · exact hmarks j hj hmarked

/-- In steps enough for all references, marking comes to marks that references do not lead out of.
-/
theorem mark_complete : ∀ (fuel : Nat) (work : List ObjectId) (marks : Array Bool),
    marks.size = h.size → work.length + h.unfollowed marks ≤ fuel →
    (∀ id, Marked marks id → ∀ next ∈ h.successors id, Marked marks next ∨ next ∈ work) →
    (∀ id, Marked marks id ∨ id ∈ work → Marked (h.mark fuel work marks) id)
      ∧ ∀ id, Marked (h.mark fuel work marks) id →
        ∀ next ∈ h.successors id, Marked (h.mark fuel work marks) next := by
  -- The invariant: what a marked object refers to is marked itself, or is work at hand.
  intro fuel
  induction fuel with
  | zero =>
    intro work marks _ hfuel hinv
    have hwork : work = [] := List.length_eq_zero_iff.mp (by omega)
    subst hwork
    exact ⟨fun id hid => hid.resolve_right List.not_mem_nil,
      fun id hid next hnext => (hinv id hid next hnext).resolve_right List.not_mem_nil⟩
  | succ fuel ih =>
    intro work marks hsize hfuel hinv
    cases work with
    | nil =>
      exact ⟨fun id hid => hid.resolve_right List.not_mem_nil,
        fun id hid next hnext => (hinv id hid next hnext).resolve_right List.not_mem_nil⟩
    | cons id work =>
      rw [List.length_cons] at hfuel
      rw [mark]
      split
      case isTrue hmarked =>
        -- The object was marked before, so leaving it out of the work loses nothing.
        have hout : ∀ j, Marked marks j ∨ j ∈ id :: work → Marked marks j ∨ j ∈ work := by
          rintro j (hj | hj)
          · exact .inl hj
          · rcases List.mem_cons.mp hj with rfl | hj
            · exact .inl hmarked
            · exact .inr hj
        have hrest := ih work marks hsize (by omega)
          fun j hj next hnext => hout next (hinv j hj next hnext)
        exact ⟨fun j hj => hrest.1 j (hout j hj), hrest.2⟩
      case isFalse hmarked =>
        have hlt : id < h.size := hsize ▸ lt_size_of_not_marked hmarked
        have hleft := unfollowed_set hmarked hlt
        have hinto : ∀ j, Marked marks j ∨ j ∈ id :: work →
            Marked (marks.set! id true) j ∨ j ∈ h.successors id ++ work := by
          rintro j (hj | hj)
          · exact .inl ((marked_set marks id j).mpr (.inr hj))
          · rcases List.mem_cons.mp hj with rfl | hj
            · exact .inl ((marked_set marks j j).mpr (.inl rfl))
            · exact .inr (List.mem_append_right _ hj)
        have hrest := ih (h.successors id ++ work) (marks.set! id true)
          (by simpa using hsize) (by rw [List.length_append]; omega) (by
            intro j hj next hnext
            rcases (marked_set marks id j).mp hj with rfl | hj
            · exact .inr (List.mem_append_left _ hnext)
            · exact hinto next (hinv j hj next hnext))
        exact ⟨fun j hj => hrest.1 j (hinto j hj), hrest.2⟩

/-- Marking leaves the number of places as it is. -/
theorem size_mark : ∀ (fuel : Nat) (work : List ObjectId) (marks : Array Bool),
    (h.mark fuel work marks).size = marks.size := by
  intro fuel
  induction fuel with
  | zero => exact fun _ _ => rfl
  | succ fuel ih =>
    intro work marks
    cases work with
    | nil => rfl
    | cons id work =>
      rw [mark]
      split
      · exact ih work marks
      · rw [ih, Array.set!_eq_setIfInBounds, Array.size_setIfInBounds]

/-- The objects that the roots name. -/
def starts (h : Heap) (roots : List Value) : List ObjectId :=
  (roots ++ h.roots).filterMap Value.objectId?

/-- The search starts at the objects among the given values and among the heap's own. -/
theorem mem_starts : id ∈ h.starts roots ↔ .object id ∈ roots ++ h.roots := by
  rw [starts, List.mem_filterMap]
  constructor
  · rintro ⟨v, hv, hid⟩
    cases v with
    | object id' => cases hid; exact hv
    | _ => cases hid
  · exact fun hid => ⟨_, hid, rfl⟩

/-- Marking is given one step for every reference, and one for every root. -/
theorem reachable_eq : h.reachable roots
    = h.mark ((h.starts roots).length + ((List.range h.size).map fun id =>
        (h.successors id).length).sum + 1) (h.starts roots) (Array.replicate h.size false) := by
  have hfold : ∀ (ids : List ObjectId) (n : Nat),
      ids.foldl (fun n id => n + (h.successors id).length) n
        = n + (ids.map fun id => (h.successors id).length).sum := by
    intro ids
    induction ids with
    | nil => exact fun n => rfl
    | cons id ids ih =>
      intro n
      rw [List.foldl_cons, ih, List.map_cons, List.sum_cons]
      omega
  rw [reachable]
  simp only [hfold]
  rfl

/-- Marking finds what is reachable. -/
theorem marked_reachable_iff (hid : id < h.size) :
    Marked (h.reachable roots) id ↔ h.Reaches roots id := by
  have hblank : ∀ j, Marked (Array.replicate h.size false) j ↔ h.size ≤ j := by
    intro j
    simp only [Marked, Array.getD_eq_getD_getElem?, Array.getElem?_replicate]
    split <;> simp <;> omega
  rw [reachable_eq]
  constructor
  · refine mark_sound (fun _ hj _ hnext => .step hj hnext) _ _ _ (fun j hj => ?_)
      (fun j hj hm => ?_) id hid
    · exact .root (mem_starts.mp hj)
    · exact absurd ((hblank j).mp hm) (Nat.not_le.mpr hj)
  · have hcomplete := mark_complete (h := h) ((h.starts roots).length
        + ((List.range h.size).map fun id => (h.successors id).length).sum + 1) (h.starts roots)
        (Array.replicate h.size false) (by simp) (by
          have hall : h.unfollowed (Array.replicate h.size false)
              = ((List.range h.size).map fun id => (h.successors id).length).sum := by
            refine congrArg List.sum (List.map_congr_left fun j hj => ?_)
            have hfalse := mt (hblank j).mp (Nat.not_le.mpr (List.mem_range.mp hj))
            exact if_neg hfalse
          omega) (by
          intro j hj next hnext
          rw [successors_of_size_le ((hblank j).mp hj)] at hnext
          cases hnext)
    intro hr
    clear hid
    induction hr with
    | root hroot => exact hcomplete.1 _ (.inr (mem_starts.mpr hroot))
    | step _ hnext ih => exact hcomplete.2 _ ih _ hnext

end Heap

end ChainScript
