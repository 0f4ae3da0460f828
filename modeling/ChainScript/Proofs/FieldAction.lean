import ChainScript.Access.Protocol
import ChainScript.Proofs.Quiet

/-!
# What fields are accessed by

The fields that the host looks after are read, set and deleted by actions of a few kinds: a look at
the machine, an answer, a failure of the host's own, an end outside, a detour, and at the end a
change of one object or of the machine. `FieldAction` lists them, and every access to a field is of
this kind. What holds of each of them holds so of reading, setting and deleting alike.
-/

namespace ChainScript

/-- An action of the kinds by which fields are accessed. It looks at no marks. The first argument
tells whether it may change anything. -/
inductive FieldAction : Bool → {α : Type} → Run α → Prop
  | pure {changes : Bool} {α : Type} (a : α) : FieldAction changes (Pure.pure a : Run α)
  | failNative {changes : Bool} {α : Type} {kind : FaultKind} (hkind : kind.isLanguage = false) :
    FieldAction changes (Run.failNative kind : Run α)
  | outside {changes : Bool} {α : Type} : FieldAction changes (Run.outside : Run α)
  | ofPrinted {changes : Bool} {α β : Type} (printed : Printed β) (f : β → α) :
    FieldAction changes (do return f (← Run.ofPrinted printed))
  | get {changes : Bool} {α : Type} {f : Machine → Run α} (hf : ∀ m, FieldAction changes (f m))
    (hmarks : ∀ m k, f (m.marked k) = f m) : FieldAction changes (MonadState.get >>= f)
  | heap {changes : Bool} {α : Type} {f : Heap → Run α} (hf : ∀ h, FieldAction changes (f h)) :
    FieldAction changes (Run.heap >>= f)
  | detour {changes : Bool} {α : Type} {guard : Guard} {d : Detour} {f : Unit → Run α}
    (hf : ∀ u, FieldAction changes (f u)) : FieldAction changes (Run.detour guard d >>= f)
  | put (id : ObjectId) (o : Object) : FieldAction true (Run.put id o)
  | modify {F : Machine → Machine} (hF : ∀ m k, F (m.marked k) = (F m).marked k) :
    FieldAction true (modifyThe Machine F : Run PUnit)

namespace FieldAction

variable {α : Type}

/-- Such an action is quiet. -/
theorem quiet {changes : Bool} {x : Run α} (hx : FieldAction changes x) : Run.Quiet x := by
  induction hx with
  | pure a => exact .pure a
  | failNative => exact .failNative _
  | outside => exact .outside
  | ofPrinted printed f => exact (Run.Quiet.looks (.ofPrinted printed)).bind fun _ => .pure _
  | get _ hmarks ih => exact .get ih hmarks
  | heap _ ih => exact .heap ih
  | detour _ ih => exact (Run.Quiet.detour _ _).bind ih
  | put id o => exact .put id o
  | modify hF => exact .modify hF

/-- Such an action that changes nothing leaves the machine as it is. -/
theorem leaves {x : Run α} (hx : FieldAction false x) (m : Machine) : (Run.on x m).2 = m := by
  generalize hlooks : false = changes at hx
  induction hx generalizing m with
  | pure a => rfl
  | failNative => rfl
  | outside => rfl
  | ofPrinted printed f =>
    rw [Run.on_bind, Run.on_ofPrinted]
    cases printed <;> rfl
  | get _ _ ih => exact ih m m hlooks
  | heap _ ih => exact ih m.heap m hlooks
  | @detour _ _ guard d _ _ ih =>
    rw [Run.on_bind, Run.on_detour]
    cases guard d with
    | true => rfl
    | false => exact ih () m hlooks
  | put => cases hlooks
  | modify => cases hlooks

end FieldAction

namespace Protocol

/-- An attribute of a number is a number. -/
theorem fieldAction_ofNumber (v one zero : Value) (name : String) :
    FieldAction false (ofNumber v one zero name) := by
  unfold ofNumber
  split
  any_goals exact .pure _
  exact .outside

/-- A field is read. -/
theorem fieldAction_readField (guard : Guard) (v : Value) (name : String) :
    FieldAction false (readField guard v name) := by
  refine .get (fun m => ?_) fun _ _ => rfl
  split
  · exact fieldAction_ofNumber _ _ _ _
  · exact fieldAction_ofNumber _ _ _ _
  · split
    · exact .pure _
    · exact .outside
  · split
    · split
      · exact .pure _
      · exact .outside
    · split
      · exact .pure _
      · split
        · exact .pure _
        · exact .outside
    · split
      · split
        · exact .pure _
        · exact .failNative rfl
      · split
        · exact .ofPrinted _ _
        · exact .outside
    · split
      · exact .pure _
      · split
        · exact .pure _
        · exact .outside
    · split
      · exact .detour fun _ => .pure _
      · exact .outside
    · exact .outside
  · exact .outside

/-- An environment is given another parent. -/
theorem fieldAction_relink (guard : Guard) (id : ObjectId) (bindings : Slots) (new : Value) :
    FieldAction true (relink guard id bindings new) := by
  refine .detour fun _ => .heap fun h => ?_
  split
  · exact .put _ _
  · split
    · exact .put _ _
    · exact .outside
  · exact .outside

/-- A field is set. -/
theorem fieldAction_writeField (guard : Guard) (v : Value) (name : String) (new : Value) :
    FieldAction true (writeField guard v name new) := by
  refine .get (fun m => ?_) fun _ _ => rfl
  split
  any_goals exact .failNative rfl
  · split
    any_goals first | exact .failNative rfl | exact .outside
    · split
      · split
        · split
          · exact .put _ _
          · exact .outside
        · exact .failNative rfl
      · exact .outside
    · split
      · exact .put _ _
      · exact .outside
    · split
      · exact .put _ _
      · split
        · exact .failNative rfl
        · exact .outside
    · split
      · exact fieldAction_relink _ _ _ _
      · split
        · exact .failNative rfl
        · exact .outside
    · split
      · refine .detour fun _ => ?_
        split
        · exact .modify fun _ _ => rfl
        · exact .outside
      · exact .outside
  · split
    · exact .failNative rfl
    · exact .outside
  · exact .outside

/-- A field is deleted. -/
theorem fieldAction_eraseField (guard : Guard) (v : Value) (name : String) :
    FieldAction true (eraseField guard v name) := by
  refine .get (fun m => ?_) fun _ _ => rfl
  split
  any_goals exact .failNative rfl
  · split
    any_goals first | exact .failNative rfl | exact .outside
    · split
      · exact .failNative rfl
      · exact .outside
    · split
      · exact .put _ _
      · exact .outside
    · split
      · exact .put _ _
      · split
        · exact .failNative rfl
        · exact .outside
    · split
      · exact .detour fun _ => .outside
      · split
        · exact .failNative rfl
        · exact .outside
    · split
      · exact .detour fun _ => .outside
      · exact .outside
  · split
    · exact .failNative rfl
    · exact .outside
  · exact .outside

end Protocol

end ChainScript
