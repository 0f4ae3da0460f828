import ChainScript.Proofs.Lockstep

/-!
# Quiet actions

The node that is current, the log of host calls and the trace are marks: a run leaves them behind
for those who report on it, and no action looks at them. A quiet action does nothing to them but add
lines to the trace. It makes no call and visits no node, so it comes to the same whatever the marks
are, adds the same lines, and leaves the rest of them as they were.
-/

namespace ChainScript

open Run (on)

/-- What a run leaves behind and never looks at. -/
structure Marks where
  current : Option Node
  log : List CallRecord
  trace : List String

namespace Marks

/-- The marks after a node was visited. -/
def visit (k : Marks) (n : Node) : Marks := { k with current := some n }

/-- The marks after a host call was recorded. -/
def record (k : Marks) (call : CallRecord) : Marks := { k with log := k.log ++ [call] }

/-- The marks after lines were added to the trace. -/
def noting (k : Marks) (lines : List String) : Marks := { k with trace := k.trace ++ lines }

/-- Adding no lines changes no marks. -/
@[simp] theorem noting_nil (k : Marks) : k.noting [] = k := by simp [noting]

/-- Lines are added one after the other. -/
@[simp] theorem noting_noting (k : Marks) (lines lines' : List String) :
    (k.noting lines).noting lines' = k.noting (lines ++ lines') := by simp [noting]

end Marks

namespace Machine

/-- The marks on the machine. -/
def marks (m : Machine) : Marks := ⟨m.current, m.log, m.trace⟩

/-- The machine with the given marks. -/
def marked (m : Machine) (k : Marks) : Machine :=
  { m with current := k.current, log := k.log, trace := k.trace }

/-- A machine that is given marks has them. -/
@[simp] theorem marks_marked (m : Machine) (k : Marks) : (m.marked k).marks = k := rfl

/-- A machine that is given its own marks stays as it is. -/
@[simp] theorem marked_marks (m : Machine) : m.marked m.marks = m := rfl

/-- The marks that are given last count. -/
@[simp] theorem marked_marked (m : Machine) (j k : Marks) : (m.marked j).marked k = m.marked k := rfl

/-- Marks are no part of the heap. -/
@[simp] theorem marked_heap (m : Machine) (k : Marks) : (m.marked k).heap = m.heap := rfl

/-- Marks do not say whether accesses are traced. -/
@[simp] theorem marked_debug (m : Machine) (k : Marks) : (m.marked k).debug = m.debug := rfl

/-- Nor does the variable that says it belong to them. -/
@[simp] theorem marked_debugVariable (m : Machine) (k : Marks) :
    (m.marked k).debugVariable = m.debugVariable := rfl

/-- Nor does strictness. -/
@[simp] theorem marked_strict (m : Machine) (k : Marks) : (m.marked k).strict = m.strict := rfl

end Machine

namespace Run

variable {α β : Type}

/-- An action that does not look at the marks, adds at most lines to the trace, and leaves the rest
of the marks alone. -/
def Quiet (x : Run α) : Prop :=
  ∀ m, ∃ lines, ∀ k, on x (m.marked k) = ((on x m).1, (on x m).2.marked (k.noting lines))

namespace Quiet

/-- A quiet action leaves the marks alone but for lines in the trace. -/
theorem exists_marks_eq {x : Run α} (hx : Quiet x) (m : Machine) :
    ∃ lines, (on x m).2.marks = m.marks.noting lines
      ∧ ∀ k, on x (m.marked k) = ((on x m).1, (on x m).2.marked (k.noting lines)) := by
  obtain ⟨lines, h⟩ := hx m
  refine ⟨lines, ?_, h⟩
  have h₂ := congrArg (·.2.marks) (h m.marks)
  simpa only [Machine.marked_marks, Machine.marks_marked] using h₂

/-- The current node stays the one that it was. -/
theorem current_eq {x : Run α} (hx : Quiet x) (m : Machine) : (on x m).2.current = m.current := by
  obtain ⟨lines, h, -⟩ := hx.exists_marks_eq m
  exact congrArg Marks.current h

/-- No host call is recorded. -/
theorem log_eq {x : Run α} (hx : Quiet x) (m : Machine) : (on x m).2.log = m.log := by
  obtain ⟨lines, h, -⟩ := hx.exists_marks_eq m
  exact congrArg Marks.log h

/-! ## Composition -/

/-- An action that leaves the trace alone as well. -/
theorem of_marked {x : Run α}
    (hmarks : ∀ m k, on x (m.marked k) = ((on x m).1, (on x m).2.marked k)) : Quiet x :=
  fun m => ⟨[], fun k => by rw [Marks.noting_nil]; exact hmarks m k⟩

/-- A value that is there is come to quietly. -/
theorem pure (a : α) : Quiet (Pure.pure a : Run α) := .of_marked fun _ _ => rfl

/-- Quiet actions in a row are quiet. -/
theorem bind {x : Run α} {f : α → Run β} (hx : Quiet x) (hf : ∀ a, Quiet (f a)) :
    Quiet (x >>= f) := by
  intro m
  obtain ⟨lines, hm⟩ := hx m
  rcases hxm : on x m with ⟨e | a, m'⟩
  · rw [hxm] at hm
    exact ⟨lines, fun k => by rw [on_bind, on_bind, hm k, hxm]⟩
  · rw [hxm] at hm
    obtain ⟨lines', hm'⟩ := hf a m'
    refine ⟨lines ++ lines', fun k => ?_⟩
    rw [on_bind, on_bind, hm k, hxm]
    exact (hm' _).trans (by rw [Marks.noting_noting])

/-- A quiet action with a quiet way out of failures is quiet. -/
theorem tryCatch {x : Run α} {handler : Stop → Run α} (hx : Quiet x)
    (hhandler : ∀ e, Quiet (handler e)) : Quiet (MonadExcept.tryCatch x handler) := by
  intro m
  obtain ⟨lines, hm⟩ := hx m
  rcases hxm : on x m with ⟨e | a, m'⟩
  · rw [hxm] at hm
    obtain ⟨lines', hm'⟩ := hhandler e m'
    refine ⟨lines ++ lines', fun k => ?_⟩
    rw [on_tryCatch, on_tryCatch, hm k, hxm]
    exact (hm' _).trans (by rw [Marks.noting_noting])
  · rw [hxm] at hm
    exact ⟨lines, fun k => by rw [on_tryCatch, on_tryCatch, hm k, hxm]⟩

/-- What follows the machine may use what is no mark of it. -/
theorem get {f : Machine → Run β} (hf : ∀ m, Quiet (f m))
    (hmarks : ∀ m k, f (m.marked k) = f m) : Quiet (MonadState.get >>= f) := by
  intro m
  obtain ⟨lines, hm⟩ := hf m m
  refine ⟨lines, fun k => ?_⟩
  show on (f (m.marked k)) (m.marked k) = ((on (f m) m).1, (on (f m) m).2.marked (k.noting lines))
  rw [hmarks]
  exact hm k

/-- An action that only looks at the heap is quiet. -/
theorem looks {x : Run α} (hx : x.Looks) : Quiet x := by
  obtain ⟨result, hresult, -⟩ := hx
  refine .of_marked fun m k => ?_
  rw [hresult, hresult, Machine.marked_heap]

/-- What follows the heap may use it. -/
theorem heap {f : Heap → Run β} (hf : ∀ h, Quiet (f h)) : Quiet (Run.heap >>= f) :=
  (looks .heap).bind hf

/-- An object is looked up quietly. -/
theorem objectOf? (v : Value) : Quiet (Run.objectOf? v) := heap fun _ => .pure _

/-- So is the key of a value. -/
theorem keyOf (v : Value) : Quiet (Run.keyOf v) := looks (.keyOf v)

/-- So is what a value is put into words as. -/
theorem inspect (v : Value) : Quiet (Run.inspect v) := looks (.inspect v)

/-- A fault arises quietly. -/
theorem fail (fault : Fault) : Quiet (Run.fail fault : Run α) := looks (.fail fault)

/-- So does a fault of the host's own. -/
theorem failNative (kind : FaultKind) : Quiet (Run.failNative kind : Run α) :=
  .of_marked fun _ _ => rfl

/-- A run ends outside quietly. -/
theorem outside : Quiet (Run.outside : Run α) := .of_marked fun _ _ => rfl

/-- Whether a detour is barred does not depend on the marks. -/
theorem detour (guard : Guard) (d : Detour) : Quiet (Run.detour guard d) := by
  unfold Run.detour
  split
  · exact .of_marked fun _ _ => rfl
  · exact .pure _

/-- A fault may be caught. -/
theorem catching (guard : Guard) (kinds : FaultKind → Bool) {x : Run α} (hx : Quiet x)
    (otherwise : α) : Quiet (Run.catching guard kinds x otherwise) := by
  have hthrow : ∀ e : Stop, Quiet (throw e : Run α) := fun e => .of_marked fun _ _ => rfl
  refine hx.tryCatch fun e => ?_
  cases e with
  | outside detour => exact hthrow _
  | fault cause =>
    dsimp only
    split
    · split
      · exact (Quiet.detour _ _).bind fun _ => .pure _
      · exact .pure _
    · exact hthrow _

/-! ## Changes of the machine -/

/-- What is no mark of the machine may be changed. -/
theorem modify {F : Machine → Machine} (hF : ∀ m k, F (m.marked k) = (F m).marked k) :
    Quiet (modifyThe Machine F : Run PUnit) :=
  .of_marked fun m k => congrArg (Prod.mk _) (hF m k)

/-- The heap is no mark. -/
theorem modifyHeap (f : Heap → Heap) : Quiet (Run.modifyHeap f) := modify fun _ _ => rfl

/-- An object may be replaced. -/
theorem put (id : ObjectId) (o : Object) : Quiet (Run.put id o) := modifyHeap _

/-- An object may be made. -/
theorem alloc (o : Object) : Quiet (Run.alloc o) := .of_marked fun _ _ => rfl

/-- Whether accesses are traced is no mark. -/
theorem tracing : Quiet Run.tracing := by
  refine .get (fun m => ?_) fun m k => by rw [Machine.marked_debug, Machine.marked_debugVariable]
  split
  · exact .pure _
  · split
    · exact .pure _
    · exact .fail _

/-- A line may be added to the trace. -/
theorem note {parts : Run (List String)} (hparts : Quiet parts) : Quiet (Run.note parts) := by
  refine tracing.bind fun enabled => ?_
  split
  · refine hparts.bind fun words m => ?_
    exact ⟨[" ".intercalate ("[DBG]" :: words)], fun k => rfl⟩
  · exact .pure _

/-! ## Loops -/

/-- An action for each item of a list is quiet if each one is. -/
theorem mapM {f : α → Run β} (hf : ∀ a, Quiet (f a)) (as : List α) : Quiet (as.mapM f) := by
  induction as with
  | nil => rw [List.mapM_nil]; exact .pure _
  | cons a as ih =>
    rw [List.mapM_cons]
    exact (hf a).bind fun _ => ih.bind fun _ => .pure _

/-- A loop is quiet if each of its rounds is. -/
theorem forIn {f : α → β → Run (ForInStep β)} (hf : ∀ a b, Quiet (f a b)) (as : List α) (b : β) :
    Quiet (ForIn.forIn as b f) := by
  induction as generalizing b with
  | nil => rw [List.forIn_nil]; exact .pure _
  | cons a as ih =>
    rw [List.forIn_cons]
    refine (hf a b).bind fun step => ?_
    cases step with
    | done b => exact .pure _
    | yield b => exact ih b

end Quiet

end Run

end ChainScript
