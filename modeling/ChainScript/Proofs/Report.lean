import ChainScript.Proofs.LockstepCall
import ChainScript.Runner

/-!
# Reports

What a runner reports follows from how its program ends. A report only looks at the machine, so
reporting leaves everything as the program left it. It is made on the way out of a failure, by
showing the node that was the current one, and showing it can fail in its turn.
-/

namespace ChainScript

open Run (on)

namespace Runner

/-- The report of a fault whose message has been made. -/
def reportOf (fault : Fault) (message : Option String) (m : Machine) : Printed Report :=
  let headline := fault.kind.reportName ++ ": " ++ message.getD (m.wording fault.kind)
  match m.current with
  | none => pure ⟨.failure fault.kind headline none, some fault⟩
  | some node => do
    let place ← placeText m.heap node
    return ⟨.failure fault.kind (headline ++ "\nAt: " ++ place) node.loc, some fault⟩

/-- A fault whose message can be made is reported from the machine as it is. -/
theorem on_report {fault : Fault} {m : Machine} {message : Option String}
    (hmessage : fault.message m.heap = .ok message) :
    on (report fault) m = (Run.ofPrintedResult (reportOf fault message m), m) := by
  have htext : on (faultText fault) m = (.ok (message.getD (m.wording fault.kind)), m) := by
    rw [faultText, Run.on_bind, Run.on_get]
    simp only [hmessage]
    rfl
  rw [report, Run.on_bind, Run.on_get]
  simp only [Run.on_bind, htext]
  unfold reportOf
  cases m.current with
  | none => rfl
  | some node =>
    simp only [Run.on_bind, Run.on_ofPrinted]
    cases placeText m.heap node <;> rfl

/-- What a runner does with the end of an attempt. -/
theorem on_execute (tree : Value) (m : Machine) :
    on (execute tree) m = match on (attempt tree) m with
      | (.ok value, m') => (.ok ⟨.success value, none⟩, m')
      | (.error (.fault fault), m') =>
        if fault.kind = .hostExit then (.error (.fault fault), m') else on (report fault) m'
      | (.error (.outside detour), m') => (.error (.outside detour), m') := by
  rw [execute, Run.on_tryCatch, Run.on_bind]
  rcases on (attempt tree) m with ⟨e | value, m'⟩
  · cases e with
    | fault fault =>
      dsimp only
      split <;> rfl
    | outside detour => rfl
  · rfl

end Runner

namespace Pairing

variable {P : Pairing} {h : Heap} {call call' : Caller}

/-- Running a program in the global environment comes to the same in both runs. -/
theorem paired_runBy (hcall : P.Callers call call') (tree : Value) :
    P.Paired h (Runner.runBy call tree) (Runner.runBy call' tree) := by
  refine (steady_programOf tree).andThen fun program h₁ => ?_
  exact .get fun m s t _ _ _ => paired_run hcall _ program

/-- So does awaiting a value. -/
theorem paired_awaitBy (hcall : P.Callers call call') (v : Value) :
    P.Paired h (Runner.awaitBy call v) (Runner.awaitBy call' v) := by
  refine .objectOf? ?_
  split
  · exact hcall _ _ _
  · exact .pure rfl

/-- So does running a program and awaiting its value. -/
theorem paired_attemptBy (hcall : P.Callers call call') (tree : Value) :
    P.Paired h (Runner.attemptBy call tree) (Runner.attemptBy call' tree) := by
  have hclear : P.Steady h (modify fun m : Machine => { m with current := none }) :=
    fun m _ _ _ hi hst =>
      .value (m := { m with current := none }) rfl (P.invariant.visit hi _) hst.leaves
  exact hclear.andThen fun _ _ =>
    (paired_runBy hcall tree).andThen fun v _ => paired_awaitBy hcall v

end Pairing

namespace Runner

/-- The fault that stops an attempt has a message that can be made. -/
theorem exists_message_of_attempt {tree : Value} {m m' : Machine} {fault : Fault}
    (hstop : on (attempt tree) m = (.error (.fault fault), m')) :
    ∃ message, fault.message m'.heap = .ok message := by
  let I := Invariant.trivial .none m.globals
  have hcall := (Pairing.level I).callers_guarded callDepth
  have hstart : I.holds m := ⟨rfl, .intro⟩
  obtain ⟨-, htold⟩ := I.of_steady (x := attempt tree) rfl
    (fun _ => Pairing.paired_attemptBy hcall tree) hstart
  rw [hstop] at htold
  exact htold _ rfl

/-- A report leaves the machine as the program left it. -/
theorem on_execute_machine (tree : Value) (m : Machine) :
    (on (execute tree) m).2 = (on (attempt tree) m).2 := by
  rw [on_execute]
  rcases hstop : on (attempt tree) m with ⟨e | value, m'⟩
  · cases e with
    | fault fault =>
      -- Since the message can be made, making the report only looks at the machine.
      obtain ⟨message, hmessage⟩ := exists_message_of_attempt hstop
      dsimp only
      split
      · rfl
      · rw [on_report hmessage]
    | outside detour => rfl
  · rfl

/-- So does telling how the program ended. -/
theorem on_handle_machine (tree : Value) (m : Machine) :
    (on (handle tree) m).2 = (on (attempt tree) m).2 := by
  rw [← on_execute_machine, handle, Run.on_bind]
  rcases on (execute tree) m with ⟨_ | _, _⟩ <;> rfl

end Runner

/-! ## Runners that were set up -/

/-- A property of heaps that every step keeps, whatever bindings the global environment is given,
holds when a runner has been set up. It is then also settled whether accesses are traced. -/
theorem Runner.holds_start (guard : Guard) {K : Heap → Prop}
    (step : ∀ {h h'}, K h → Heap.Step guard Machine.blank.globals h h' → K h')
    (put : ∀ {h} bindings, K h → K (h.put Machine.blank.globals (.environment bindings none)))
    (hblank : K Machine.blank.heap) (config : Config) :
    K (on (start config) Machine.blank).2.heap ∧ (on (start config) Machine.blank).2.debug.isSome := by
  let I := Invariant.ofHeap guard Machine.blank.globals K step
  have hbindings : I.holds (on Library.bindings Machine.blank).2
      ∧ (on Library.bindings Machine.blank).2.debug.isSome := by
    refine ⟨?_, by decide +kernel⟩
    rcases I.of_paired (fun _ => Pairing.steady_bindings) (m := Machine.blank) ⟨rfl, hblank⟩ with
      ⟨d, -, hd⟩ | ⟨-, hi, -⟩
    · have hnone : Stop.detour? (on Library.bindings Machine.blank).1 = none := by decide +kernel
      rw [hd] at hnone
      cases hnone
    · exact hi
  rw [start, Run.on_bind]
  revert hbindings
  generalize on Library.bindings Machine.blank = p
  obtain ⟨_ | slots, m⟩ := p
  · exact fun hm => ⟨hm.1.2, hm.2⟩
  · rintro ⟨⟨hglobals, hm⟩, -⟩
    have hput := put slots hm
    rw [← hglobals] at hput
    exact ⟨hput, rfl⟩

/-- A machine with an evaluator, the library that holds it, and a function of that library, in this
order. -/
def Machine.withLibrary : Machine :=
  let (evaluator, heap) := Machine.blank.heap.alloc (.evaluator Machine.blank.globals)
  let (library, heap) := heap.alloc (.library (some (.object evaluator)))
  let (_, heap) := heap.alloc (.method (.library library .freeze))
  { Machine.blank with heap }

/-! ## Sequences of runs -/

/-- What a host does with a runner: it runs a program, or runs it and reports how it ended. -/
inductive Use where
  | run (tree : Value)
  | handle (tree : Value)

namespace Use

/-- The machine that one use of the runner leaves, however it ends. -/
def machine (m : Machine) : Use → Machine
  | .run tree => (on (Runner.run tree) m).2
  | .handle tree => (on (Runner.handle tree) m).2

/-- The machine that uses of the runner leave, one after the other. -/
def machines (m : Machine) (uses : List Use) : Machine := uses.foldl machine m

/-- In one use of the runner, the program comes to a detour that is barred. -/
def Detours (guard : Guard) (m : Machine) : Use → Prop
  | .run tree => Run.Detoured guard (on (Runner.runBy (guarded guard callDepth) tree) m)
  | .handle tree => Run.Detoured guard (on (Runner.attemptBy (guarded guard callDepth) tree) m)

/-- No program comes to a detour that is barred in uses of the runner one after the other. -/
def Straight (guard : Guard) : Machine → List Use → Prop
  | _, [] => True
  | m, use :: uses => ¬use.Detours guard m ∧ Straight guard (use.machine m) uses

instance (guard : Guard) (m : Machine) : (use : Use) → Decidable (use.Detours guard m)
  | .run _ => inferInstanceAs (Decidable (Run.Detoured _ _))
  | .handle _ => inferInstanceAs (Decidable (Run.Detoured _ _))

instance instDecidableStraight : (guard : Guard) → (m : Machine) → (uses : List Use) →
    Decidable (Straight guard m uses)
  | _, _, [] => .isTrue .intro
  | guard, m, use :: uses =>
    have := instDecidableStraight guard (use.machine m) uses
    inferInstanceAs (Decidable (¬use.Detours guard m ∧ Straight guard (use.machine m) uses))

/-- Where no detour is barred no program comes to one. -/
theorem not_detours_none (m : Machine) (use : Use) : ¬use.Detours .none m := by
  cases use <;> exact Run.not_detoured_none _

/-- The guarded program of a use that comes to no detour does what the program itself does, and
keeps an invariant of guarded runs. -/
theorem holds_machine (I : Invariant) {m : Machine} (hm : I.holds m) {use : Use}
    (hs : ¬use.Detours I.guard m) :
    I.holds (use.machine m)
      ∧ (I.guard .writeStrict = true → (use.machine m).strict = m.strict) := by
  have hcall := (Pairing.level I).callers_guarded callDepth
  cases use with
  | run tree =>
    rcases I.of_paired (fun _ => Pairing.paired_runBy hcall tree) hm with hp | ⟨-, hi, hstrict, -⟩
    · exact (hs hp).elim
    · exact ⟨hi, hstrict⟩
  | handle tree =>
    rw [machine, Runner.on_handle_machine]
    rcases I.of_paired (fun _ => Pairing.paired_attemptBy hcall tree) hm with
      hp | ⟨-, hi, hstrict, -⟩
    · exact (hs hp).elim
    · exact ⟨hi, hstrict⟩

/-- An invariant of guarded runs holds after every sequence of uses that come to no barred detour.
-/
theorem holds_machines (I : Invariant) {m : Machine} (hm : I.holds m) {uses : List Use}
    (hs : Straight I.guard m uses) : I.holds (machines m uses) := by
  induction uses generalizing m with
  | nil => exact hm
  | cons use uses ih => exact ih (holds_machine I hm hs.1).1 hs.2

/-- Where no detour is barred every sequence of uses comes to none. -/
theorem straight_none (m : Machine) (uses : List Use) : Straight .none m uses := by
  induction uses generalizing m with
  | nil => exact .intro
  | cons use uses ih => exact ⟨not_detours_none m use, ih _⟩

end Use

end ChainScript
