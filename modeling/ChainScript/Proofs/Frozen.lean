import ChainScript.Proofs.Report

/-!
# Frozen records

A frozen record stays frozen, with the same kind and parent, whatever programs are run afterwards
and however they end. It keeps the same slots in the same order as well, by whatever route a program
reaches it, with one exception: the methods of stores can be called as functions on an object that
shows the record as its data, and they change the record without a look at whether it is frozen.

No step of a run but this one changes a frozen record, so no run that does not come to it does, and
neither does any sequence of such runs.
-/

namespace ChainScript

open Run (on)

/-- A frozen record of the given kind and parent stands at a place, with slots of which `K` holds.
-/
def FrozenAt (K : Slots → Prop) (id : ObjectId) (kind : RecordClass) (parent : Option ObjectId)
    (h : Heap) : Prop :=
  ∃ slots, h.object? id = some (.record kind slots parent true) ∧ K slots

namespace FrozenAt

variable {guard : Guard} {K : Slots → Prop} {id : ObjectId} {kind : RecordClass}
  {parent : Option ObjectId}

/-- No step of the heap changes a frozen record, unless it empties it. -/
theorem step (hempty : guard .openFrozen = false → K .empty) {globals : ObjectId} {h h' : Heap}
    (hf : FrozenAt K id kind parent h) (s : Heap.Step guard globals h h') :
    FrozenAt K id kind parent h' := by
  obtain ⟨slots, hslots, hk⟩ := hf
  obtain ⟨o, ho, rfl | hc | ⟨-, _, _, _, henv, -⟩⟩ := s.object? hslots
  · exact ⟨slots, ho, hk⟩
  · cases hc with
    | emptied hg => exact ⟨.empty, ho, hempty hg⟩
    | freeze => exact ⟨slots, ho, hk⟩
    | kept _ name v => exact ⟨slots, ho, hk⟩
  · cases henv

/-- Standing frozen at a place, as an invariant of runs. -/
def invariant (guard : Guard) (globals id : ObjectId) (kind : RecordClass)
    (parent : Option ObjectId) (K : Slots → Prop) (hempty : guard .openFrozen = false → K .empty) :
    Invariant :=
  .ofHeap guard globals (FrozenAt K id kind parent) (step hempty)

end FrozenAt

/-- The record that has nothing but the slot `a`. -/
def onlyA : Slots := Slots.put .empty (.str "a") (.str "a") (.int 1)

/-- A machine with that record, frozen, and with two programs: one writes its slot, and the other
calls the method `clear` of the class of stores on a record that has the frozen one in its slot
`_data`. -/
def withFrozenA : Machine :=
  let (record, heap) := Machine.blank.heap.alloc (.record .plain onlyA none true)
  let (_, heap) := heap.alloc (.node (.assign
    (.member (.value (.object record)) (.str "a") none) (.literal (.int 2) none) none))
  let (_, heap) := heap.alloc (.node (.call (.member (.value (.type .store)) (.str "clear") none)
    [.objectLiteral [(.str "_data", .value (.object record))] none] none))
  { Machine.blank with heap }

end ChainScript
