import ChainScript.Access.Protocol
import ChainScript.Proofs.LockstepAccess

/-!
# Attributes of the host's own in lockstep

What the host does on its own when an attribute is read, set or deleted is the same in both runs.
Four of the detours lie here: the strictness of the evaluator is read and set, an environment is
given another parent, and a refusal is caught. The first run ends at those that are barred to it.
-/

namespace ChainScript

namespace Pairing

variable {P : Pairing} {h : Heap} {call call' : Caller}

/-- The function behind an attribute is the same in both runs. -/
theorem paired_callPart (hcall : P.Callers call call') (part : ClassPart)
    (arguments : List Value) :
    P.Paired h (Protocol.callPart call part arguments) (Protocol.callPart call' part arguments) := by
  refine .heap ?_
  split
  · exact hcall _ _ _
  · exact .failNative _

/-- An attribute of a number does not depend on the machine. -/
theorem steady_ofNumber (v one zero : Value) (name : String) :
    P.Steady h (Protocol.ofNumber v one zero name) := by
  unfold Protocol.ofNumber
  split
  · exact .pure rfl
  · exact .pure rfl
  · exact .pure rfl
  · exact .pure rfl
  · exact .outside

/-- An attribute that no function stands behind is read in the same way in both runs. They see the
same strictness, because a run that is stricter than the other is kept from looking. -/
theorem paired_readField (v : Value) (name : String) :
    P.Paired h (Protocol.readField P.guard v name) (Protocol.readField .none v name) := by
  refine .get fun m s t hm _ hst => ?_
  subst hm
  dsimp only [Machine.strictly_heap, Machine.strictly_globals, Machine.strictly_strict]
  split
  · exact steady_ofNumber _ _ _ _
  · exact steady_ofNumber _ _ _ _
  · split
    · exact .pure rfl
    · exact .outside
  · split
    · split
      · exact .pure rfl
      · exact .outside
    · split
      · exact .pure rfl
      · split
        · exact .pure rfl
        · exact .outside
    · split
      · split
        · exact .pure rfl
        · exact .failNative _
      · split
        · exact .ofPrinted fun n _ => .pure rfl
        · exact .outside
    · split
      · exact .pure rfl
      · split
        · exact .pure rfl
        · exact .outside
    · refine .ite .rfl (fun _ => .detour fun hg => .pure ?_) fun _ => .outside
      have hlax : ¬P.lax := fun hl => nomatch hg.symm.trans (P.bars hl .readStrict (by decide))
      rw [hst.2 hlax]
    · exact .outside
  · exact .outside

/-- An attribute of the host's own is read in the same way in both runs. -/
theorem paired_protocolRead (hcall : P.Callers call call') (v : Value) (name : String) :
    P.Paired h (Protocol.read P.guard call v name) (Protocol.read .none call' v name) := by
  refine .heap ?_
  split
  · exact paired_callPart hcall _ _
  · exact paired_readField v name

/-- An environment is given the same parent in both runs. -/
theorem paired_relink {id : ObjectId} {bindings : Slots} {parent : Option ObjectId}
    (ho : h.object? id = some (.environment bindings parent)) (new : Value) :
    P.Paired h (Protocol.relink P.guard id bindings new) (Protocol.relink .none id bindings new) := by
  refine .detour fun hg => .heap ?_
  split
  · refine (Lockstep.modifyHeap (.relink hg ho ?_)).mono fun _ _ _ _ => rfl
    rintro _ ⟨⟩
  · rename_i p inner outer hp
    split
    · rename_i hlt
      refine (Lockstep.modifyHeap (.relink hg ho ?_)).mono fun _ _ _ _ => rfl
      rintro _ ⟨⟩
      exact ⟨hlt, inner, outer, hp⟩
    · exact .outside
  · exact .outside

/-- An attribute that no function stands behind is set in the same way in both runs. -/
theorem paired_writeField (v : Value) (name : String) (new : Value) :
    P.Paired h (Protocol.writeField P.guard v name new) (Protocol.writeField .none v name new) := by
  refine .get fun m s t hm _ _ => ?_
  subst hm
  dsimp only [Machine.strictly_heap, Machine.strictly_globals]
  split
  any_goals exact .failNative _
  · split
    any_goals first | exact .failNative _ | exact .outside
    · rename_i c ho
      split
      · split
        · rename_i d
          split
          · rename_i hslots
            rw [Bool.and_eq_true, decide_eq_true_iff, decide_eq_true_iff] at hslots
            exact steady_put ho (.reclass hslots.1 hslots.2)
          · exact .outside
        · exact .failNative _
      · exact .outside
    · rename_i ho
      split
      · exact steady_put ho (.husk ..)
      · exact .outside
    · rename_i ho
      split
      · exact steady_put ho (.data ..)
      · split
        · exact .failNative _
        · exact .outside
    · rename_i ho
      split
      · exact paired_relink ho new
      · split
        · exact .failNative _
        · exact .outside
    · refine .ite .rfl (fun _ => .detour fun hg => ?_) fun _ => .outside
      split
      · exact steady_setStrict hg _
      · exact .outside
  · split
    · exact .failNative _
    · exact .outside
  · exact .outside

/-- An attribute of the host's own is set in the same way in both runs. -/
theorem paired_protocolWrite (hcall : P.Callers call call') (v : Value) (name : String)
    (new : Value) :
    P.Paired h (Protocol.write P.guard call v name new) (Protocol.write .none call' v name new) := by
  refine .heap ?_
  split
  · exact Lockstep.andThen (paired_callPart hcall _ _) fun _ _ => .pure rfl
  · exact paired_writeField v name new

/-- An attribute that no function stands behind is deleted in the same way in both runs. -/
theorem paired_eraseField (v : Value) (name : String) :
    P.Paired h (Protocol.eraseField P.guard v name) (Protocol.eraseField .none v name) := by
  refine .get fun m s t hm _ _ => ?_
  subst hm
  dsimp only [Machine.strictly_heap]
  split
  any_goals exact .failNative _
  · split
    any_goals first | exact .failNative _ | exact .outside
    · split
      · exact .failNative _
      · exact .outside
    · rename_i ho
      split
      · exact steady_put ho (.husk ..)
      · exact .outside
    · rename_i ho
      split
      · exact steady_put ho (.data ..)
      · split
        · exact .failNative _
        · exact .outside
    · split
      · exact .detour fun _ => .outside
      · split
        · exact .failNative _
        · exact .outside
    · exact .ite .rfl (fun _ => .detour fun _ => .outside) fun _ => .outside
  · split
    · exact .failNative _
    · exact .outside
  · exact .outside

/-- An attribute of the host's own is deleted in the same way in both runs. -/
theorem paired_protocolErase (hcall : P.Callers call call') (v : Value) (name : String) :
    P.Paired h (Protocol.erase P.guard call v name) (Protocol.erase .none call' v name) := by
  refine .heap ?_
  split
  · exact Lockstep.andThen (paired_callPart hcall _ _) fun _ _ => .pure rfl
  · exact paired_eraseField v name

/-- An access to an attribute of the host's own is served in the same way in both runs, unless the
first catches a refusal and that is barred. -/
theorem paired_serve (hcall : P.Callers call call') (name : String) (kind : AccessKind)
    (arguments : List Value) :
    P.Paired h (Protocol.serve P.guard call name kind arguments)
      (Protocol.serve .none call' name kind arguments) := by
  unfold Protocol.serve
  split
  · exact .catching (paired_protocolRead hcall _ _)
  · exact .catching (Lockstep.andThen (paired_protocolWrite hcall _ _ _) fun _ _ => .pure rfl)
  · refine Lockstep.andThen (.catching (Lockstep.andThen (paired_protocolRead hcall _ _)
      fun _ _ => .pure rfl)) fun there _ => ?_
    split
    · exact .catching (Lockstep.andThen (paired_protocolErase hcall _ _) fun _ _ => .pure rfl)
    · exact .pure rfl
  · exact .failNative _

end Pairing

end ChainScript
