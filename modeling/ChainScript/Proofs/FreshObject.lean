import ChainScript.Proofs.Inside

/-!
# Objects that nothing leads to

A machine is closed if nothing that it holds leads past its heap: however the places past the end
are moved, it is a copy of itself. Machines that are not set up are closed, and whatever is done on
a closed machine with values that it holds leaves a closed one (`Machine.Closed.after`), so every
machine that a host has is closed.

An object that is made on a closed machine can be reached through nothing but the value that names
it. Whatever is done without that value leaves the object alone (`Machine.Closed.fresh_kept`): the
machine does there what it would have done had the object not been made, and touches nothing but its
own objects and what it makes.
-/

namespace ChainScript

open Run (on)

namespace Renaming

/-- The renaming that moves nothing. -/
def same : Renaming := ⟨id, strictMono_id, fun _ => rfl⟩

/-- The renaming moves nothing up to a place, and nothing from behind it to before it. -/
abbrev Keeps (σ : Renaming) (size : Nat) : Prop := σ.Extends same size size

/-- A renaming that moves nothing up to a place moves nothing up to an earlier one. -/
theorem Keeps.of_le {σ : Renaming} {size size' : Nat} (hσ : σ.Keeps size') (hle : size ≤ size') :
    σ.Keeps size := by
  refine ⟨fun id hid => hσ.old id (Nat.lt_of_lt_of_le hid hle), fun id hid => ?_⟩
  by_cases hold : id < size'
  · rw [hσ.old id hold]
    exact hid
  · exact hle.trans (hσ.new id (Nat.le_of_not_lt hold))

/-- A renaming that moves nothing up to where a run ends puts all that is made where it is. -/
theorem Keeps.fits {σ : Renaming} {h : Heap} {size : Nat} (hσ : σ.Keeps size) : σ.Fits h h size := by
  intro id _ hid
  rw [hσ.old id hid]
  rfl

end Renaming

/-- Nothing of what is said leads past the heap. -/
def Heap.Holds {α : Type} [Renamed α] (h : Heap) (a : α) : Prop :=
  ∀ σ : Renaming, σ.Keeps h.size → rename σ a = a

/-- A heap holds what stands on it. -/
theorem Heap.holds_object {h : Heap} {id : ObjectId} (hid : id < h.size) :
    h.Holds (Value.object id) :=
  fun _ hσ => congrArg Value.object (hσ.old id hid)

/-- An action that holds nothing that leads past the heap. -/
def Heap.Performs {α : Type} [Renamed α] (h : Heap) (x : Run α) : Prop :=
  ∀ σ : Renaming, σ.Keeps h.size → Follows σ x x

/-- However a run ends, the run on the copy leaves the same machine with its objects in other
places. -/
theorem MirrorEnds.grown {α β : Type} {ρ : Renaming} {r : α → β} {h₀ h₀' : Heap}
    {left : Except Stop α × Machine} {right : Except Stop β × Machine}
    (hends : MirrorEnds ρ r h₀ h₀' left right) :
    ∃ h', Heap.Grown ρ h₀ h₀' left.2.heap h' ∧ right.2 = left.2.moved ρ h' := by
  cases hends with
  | value hg => exact ⟨_, hg, rfl⟩
  | stop hg => exact ⟨_, hg, rfl⟩

namespace Machine

/-- Nothing that the machine holds leads past its heap. -/
structure Closed (m : Machine) : Prop where
  symbol_lt : ∀ kind : AccessKind, kind.symbol < m.heap.size
  copy : ∀ σ : Renaming, σ.Keeps m.heap.size → m.Copy σ m

variable {m : Machine}

/-- A machine that is not set up is closed. -/
theorem closed_blank : blank.Closed := by
  refine ⟨fun kind => by cases kind <;> decide, fun σ hσ =>
    ⟨⟨fun id => ?_, fun v hv => ?_, fun part => rfl⟩, ?_⟩⟩
  · match id with
    | 0 | 1 | 2 =>
      rw [hσ.old _ (by decide)]
      exact .some ⟨.symbol _, rfl⟩
    | 3 =>
      rw [hσ.old _ (by decide)]
      exact .some ⟨.environment .empty none, rfl⟩
    | id + 4 =>
      have hnone : blank.heap.cells[id + 4]? = none :=
        Array.getElem?_eq_none (Nat.le_add_left 4 id)
      have hnone' : blank.heap.cells[σ (id + 4)]? = none :=
        Array.getElem?_eq_none (hσ.new (id + 4) (Nat.le_add_left 4 id))
      rw [hnone, hnone']
      exact .none
  · cases v with
    | object id => cases hv
    | _ => rfl
  · have hglobals : σ 3 = 3 := hσ.old 3 (by decide)
    show Machine.mk .. = Machine.mk ..
    congr 1
    exact hglobals.symm

namespace Closed

/-- A closed machine stays closed when it enters a node that it holds. -/
theorem visit (hm : m.Closed) {n : Node} (hn : m.heap.Holds n) :
    Closed { m with current := some n } := by
  refine ⟨hm.symbol_lt, fun σ hσ => ?_⟩
  have hcopy := hm.copy σ hσ
  refine ⟨hcopy.heap, ?_⟩
  have hcurrent : some n = rename σ (some n) := congrArg some (hn σ hσ).symm
  calc { m with current := some n }
      = { m.moved σ m.heap with current := some n } := by rw [← hcopy.rest]
    _ = { m.moved σ m.heap with current := rename σ (some n) } := by rw [← hcurrent]

/-! ## Runs -/

/-- What is done on a closed machine leaves a closed machine. -/
theorem after {α : Type} [Renamed α] (hm : m.Closed) {x : Run α} (hx : m.heap.Performs x) :
    (on x m).2.Closed := by
  have hgrows := (hx .same ⟨fun _ _ => rfl, fun _ => id⟩).grows m
  refine ⟨fun kind => Nat.lt_of_lt_of_le (hm.symbol_lt kind) hgrows, fun σ hσ => ?_⟩
  have hkeeps := hσ.of_le hgrows
  have hcopy := hm.copy σ hkeeps
  have hends := (hx σ hkeeps).ends m m.heap hcopy.heap hσ.fits
  rw [← hcopy.rest] at hends
  -- The run is compared with itself, so the machine that it leaves is the copy.
  obtain ⟨h, hg, hmoved⟩ := hends.grown
  have hheap : (on x m).2.heap = h := congrArg Machine.heap hmoved
  subst hheap
  exact ⟨hg.copy, hmoved⟩

/-- The places of a closed machine, and behind them those of what it makes where one more object
stands at the end of its heap. -/
def past (hm : m.Closed) : Renaming :=
  Renaming.same.onward m.heap.size (m.heap.size + 1) (fun _ hid => Nat.lt_succ_of_lt hid) hm.symbol_lt

/-- The renaming that leaves one place free moves nothing that is there. -/
theorem extends_past (hm : m.Closed) : hm.past.Extends .same m.heap.size (m.heap.size + 1) :=
  Renaming.extends_onward

/-- No object of the machine, nor any that it makes, has the place of the new one. -/
theorem past_ne (hm : m.Closed) (id : ObjectId) : hm.past id ≠ m.heap.size := by
  by_cases hid : id < m.heap.size
  · rw [hm.extends_past.old id hid]
    exact Nat.ne_of_lt hid
  · have hnew := hm.extends_past.new id (Nat.le_of_not_lt hid)
    exact (Nat.ne_of_lt hnew).symm

end Closed

/-- The machine with one object more. -/
def making (m : Machine) (o : Object) : Machine := { m with heap := (m.heap.alloc o).2 }

/-- Making an object adds one to the heap. -/
theorem size_making (m : Machine) (o : Object) : (m.making o).heap.size = m.heap.size + 1 :=
  Array.size_push _

/-- What was made stands at the end. -/
theorem object?_making (m : Machine) (o : Object) :
    (m.making o).heap.object? m.heap.size = some o :=
  (Heap.object?_alloc m.heap o m.heap.size).trans (if_pos rfl)

namespace Closed

/-- A closed machine with one object more is a copy of the machine without it. -/
theorem copy_making (hm : m.Closed) (o : Object) : m.Copy hm.past (m.making o) := by
  have hpast := hm.extends_past
  have hcopy := hm.copy hm.past (hpast.weaken (Nat.le_succ _))
  have hshared : (m.making o).heap.sharedAttributes = m.heap.sharedAttributes := rfl
  refine hcopy.elsewhere (fun id hid => ?_) (fun id hid => ?_)
    (fun v hv => Heap.attributes_of_shared hshared hv) rfl
  · have hsize := m.size_making o
    exact Nat.le_trans (Nat.le_of_eq hsize) (hpast.new id hid)
  · rw [hpast.old id hid]
    exact (Array.getElem?_push_lt hid).trans (Array.getElem?_eq_getElem hid).symm

/-- An object that is made on a closed machine is left alone by everything that is done without the
value that names it. -/
theorem fresh_kept {α : Type} [Renamed α] (hm : m.Closed) {x : Run α} (hx : m.heap.Performs x)
    (o : Object) : (on x (m.making o)).2.heap.object? m.heap.size = some o := by
  have hsize := m.size_making o
  have hcopy := hm.copy_making o
  have hfits : hm.past.Fits m.heap (m.making o).heap (on x m).2.heap.size := by
    intro id hid _
    have hplace : hm.past id = m.heap.size + 1 + (id - m.heap.size) := Renaming.onward_new hid
    rw [hplace, hsize]
    omega
  have hpast := hm.extends_past.weaken (Nat.le_succ m.heap.size)
  have hends := (hx hm.past hpast).ends m _ hcopy.heap hfits
  rw [← hcopy.rest] at hends
  obtain ⟨h, hg, hmoved⟩ := hends.grown
  have hcell := hg.kept m.heap.size (by omega) hm.past_ne
  calc (on x (m.making o)).2.heap.object? m.heap.size
      = h.object? m.heap.size := by rw [hmoved, moved_heap]
    _ = (m.making o).heap.object? m.heap.size := congrArg (Option.map Cell.object) hcell
    _ = some o := m.object?_making o

/-! ## Tasks of a host -/

/-- A task that hands over nothing but what the machine holds leaves a closed machine. -/
theorem machine (hm : m.Closed) {task : Task} (htask : m.heap.Holds task) :
    (task.machine m).Closed := by
  refine hm.after fun σ hσ => ?_
  have hfollows := Task.follows_action (ρ := σ) task
  rwa [htask σ hσ] at hfollows

/-- Tasks that hand over nothing but what the machine holds from the beginning leave a closed
machine. The induction is on the tasks, and goes on from the machine that the first one leaves. -/
theorem machines (hm : m.Closed) {tasks : List Task} (htasks : ∀ task ∈ tasks, m.heap.Holds task) :
    (Task.machines m tasks).Closed := by
  induction tasks generalizing m with
  | nil => exact hm
  | cons task rest ih =>
    refine ih (hm.machine (htasks task List.mem_cons_self)) fun later hlater σ hσ => ?_
    exact htasks later (List.mem_cons_of_mem task hlater) σ (hσ.of_le (task.size_le_machine m))

end Closed

end Machine

end ChainScript
