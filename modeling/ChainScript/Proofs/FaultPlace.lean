import ChainScript.Proofs.CallOrder
import ChainScript.Proofs.EntryPoints

/-!
# Where a fault is reported

A fault is reported at the node that is current when it arises. A step that reads, writes or deletes
makes its own node the current one first, so the fault of such a step is reported at its node. So is
a refusal where nothing was visited since the node was entered: of an unbound name, of a member of
the parent of `this`, or of what cannot be assigned to.

Between the last operand of a node and a refusal, or a call, the node is not made the current one
again. Such a fault is reported at the node that the operands visited last.
-/

namespace ChainScript

open Run (on Quiet)

namespace Step

variable {call : Caller} {env : Value}

/-- A step that made a call failed: the call failed, or it was what the host does about an
attribute, and the host refused the access. -/
def CallFailed (call : Caller) (f : Value) (arguments : List Value) (m₁ m₂ : Machine) (e : Stop) :
    Prop :=
  on (call f arguments) m₁ = (.error e, m₂)
  ∨ ∃ name kind v, f = .builtin (.attribute name kind) ∧ on (call f arguments) m₁ = (.ok v, m₂)

/-- A step fails by itself, with the node as the current one that it had while it did its own part,
or it fails with the call that it made then. -/
theorem run_error {s : Step} {st : Stack} {m m' : Machine} {e : Stop}
    (hrun : on (s.run call env st) m = (.error e, m')) :
    s.calls env st m = [] ∧ m'.current = s.current m
    ∨ ∃ f arguments m₁ m₂, s.calls env st m = [⟨f, arguments⟩] ∧ m₁.current = s.current m
      ∧ CallFailed call f arguments m₁ m₂ e ∧ m'.current = m₂.current := by
  have houtcome := outcome call env s st m
  rw [hrun] at houtcome
  generalize hstop : (Except.error e : Except Stop Stack) = stop at houtcome
  cases houtcome with
  | failed hcalls _ hcurrent => exact .inl ⟨hcalls, hcurrent⟩
  | done => cases hstop
  | @called f arguments m₁ m₂ m'' answer ended _ hcalls _ hcurrent hcalled hended hleft =>
    refine .inr ⟨f, arguments, m₁, m₂, hcalls, hcurrent, ?_, hleft.2⟩
    cases answer with
    | error e' =>
      cases hstop.trans (hended.1 e' rfl)
      exact .inl hcalled
    | ok v =>
      obtain ⟨name, kind, hf⟩ := hended.2 v e rfl hstop.symm
      exact .inr ⟨name, kind, v, hf, hcalled⟩

/-- After a step that makes no call, the node is current that was current while it did its part. -/
theorem current_run {s : Step} (hs : s.act.calls = false) {st st' : Stack} {m m' : Machine}
    (hrun : on (s.run call env st) m = (.ok st', m')) : m'.current = s.current m := by
  have houtcome := outcome call env s st m
  rw [hrun] at houtcome
  generalize (Except.ok st' : Except Stop Stack) = stop at houtcome
  cases houtcome with
  | failed _ _ hcurrent | done _ _ hcurrent => exact hcurrent
  | called hact =>
    rw [hs] at hact
    cases hact

/-- Whether a step leaves the current node alone: it visits none and makes no call. -/
def still (s : Step) : Bool := !s.act.visits && !s.act.calls

/-- Still steps leave the current node alone. -/
theorem current_follow_still {steps : List Step} (hsteps : ∀ s ∈ steps, s.still = true)
    {st st' : Stack} {m m' : Machine} (hfollow : on (follow call env steps st) m = (.ok st', m')) :
    m'.current = m.current := by
  -- The induction is on the steps. None visits a node, and none makes a call that could.
  induction steps generalizing st m with
  | nil =>
    cases hfollow
    rfl
  | cons s rest ih =>
    obtain ⟨hvisits, hcalls⟩ : s.act.visits = false ∧ s.act.calls = false := by
      simpa [still] using hsteps s List.mem_cons_self
    rw [follow] at hfollow
    rcases hrun : on (s.run call env st) m with ⟨e | st₁, m₁⟩
    · rw [Run.on_bind_error hrun] at hfollow
      cases hfollow
    · rw [Run.on_bind_ok hrun] at hfollow
      calc m'.current
          = m₁.current := ih (fun t ht => hsteps t (List.mem_cons_of_mem _ ht)) hfollow
        _ = s.current m := current_run hcalls hrun
        _ = m.current := by simp [current, hvisits]

/-- Whether a step has its node as the current one while it does its own part: it makes it so, or
the node was entered by the steps before and nothing else was visited since. -/
def Settled (taken : List Step) (s : Step) : Prop :=
  s.act.visits = true ∨ ∃ before t after, taken = before ++ t :: after ∧ t.act = .enter
    ∧ t.owner = s.owner ∧ ∀ u ∈ after, u.still = true

/-- A settled step has its node as the current one while it does its own part. -/
theorem current_of_settled {taken : List Step} {s : Step} (hs : Settled taken s) {st st' : Stack}
    {m m' : Machine} (hfollow : on (follow call env taken st) m = (.ok st', m')) :
    s.current m' = some s.owner := by
  unfold current
  split
  · rfl
  · rename_i hvisits
    rcases hs with hs | ⟨before, t, after, rfl, ht, howner, hafter⟩
    · exact (hvisits hs).elim
    · -- The step that entered the node made it the current one, and no step since made another.
      rw [follow_append] at hfollow
      rcases hbefore : on (follow call env before st) m with ⟨e | st₁, m₁⟩
      · rw [Run.on_bind_error hbefore] at hfollow
        cases hfollow
      · rw [Run.on_bind_ok hbefore, follow] at hfollow
        rcases hrun : on (t.run call env st₁) m₁ with ⟨e | st₂, m₂⟩
        · rw [Run.on_bind_error hrun] at hfollow
          cases hfollow
        · rw [Run.on_bind_ok hrun] at hfollow
          calc m'.current
              = m₂.current := current_follow_still hafter hfollow
            _ = t.current m₁ := current_run (by rw [ht]; rfl) hrun
            _ = some t.owner := by simp [current, ht, Act.visits]
            _ = some s.owner := by rw [howner]

/-- A step of a node failed there: the node is the current one, or it was when the step made its
call, and the step failed with the call. -/
def FailedAtOwner (call : Caller) (env : Value) (s : Step) (st : Stack) (m : Machine) (e : Stop)
    (m' : Machine) : Prop :=
  s.calls env st m = [] ∧ m'.current = some s.owner
  ∨ ∃ f arguments m₁ m₂, s.calls env st m = [⟨f, arguments⟩] ∧ m₁.current = some s.owner
    ∧ CallFailed call f arguments m₁ m₂ e ∧ m'.current = m₂.current

/-- A settled step that fails fails at its node. -/
theorem failedAtOwner_of_settled {taken : List Step} {s : Step} (hs : Settled taken s)
    {st₀ st : Stack} {m₀ m m' : Machine} {e : Stop}
    (hfollow : on (follow call env taken st₀) m₀ = (.ok st, m))
    (hrun : on (s.run call env st) m = (.error e, m')) : s.FailedAtOwner call env st m e m' := by
  have hcurrent := current_of_settled hs hfollow
  rcases run_error hrun with ⟨hcalls, hm'⟩ | ⟨f, arguments, m₁, m₂, hcalls, hm₁, hcalled, hm'⟩
  · exact .inl ⟨hcalls, hm'.trans hcurrent⟩
  · exact .inr ⟨f, arguments, m₁, m₂, hcalls, hm₁.trans hcurrent, hcalled, hm'⟩

end Step

namespace Runner

/-- A report places its fault at the current node. -/
theorem report_at_current {fault : Fault} {m m' : Machine} {n : Node} {report : Report}
    (hcurrent : m.current = some n) (hreport : on (Runner.report fault) m = (.ok report, m')) :
    ∃ text place, fault.message m.heap = .ok text ∧ placeText m.heap n = .ok place
      ∧ report.outcome = .failure fault.kind (m.headline fault text ++ "\nAt: " ++ place) n.loc := by
  cases hmessage : fault.message m.heap with
  | ok text =>
    rw [on_report hmessage, reportOf, hcurrent] at hreport
    cases hplace : placeText m.heap n with
    | ok place =>
      simp only [hplace] at hreport
      cases hreport
      exact ⟨text, place, rfl, rfl, rfl⟩
    | error failure =>
      simp only [hplace] at hreport
      cases hreport
  | error failure =>
    rw [Runner.report, Run.on_bind, Run.on_get] at hreport
    simp only [Run.on_bind, faultText, Run.on_get, hmessage] at hreport
    cases hreport

end Runner

open Step (follow)

/-- Where an evaluation by the given steps fails, it fails at one of them. If this step had its node
as the current one when it did its own part, it failed at its node, and the report of the fault
shows the node and where it stood. -/
def FailsAtOwner (depth : Nat) (env : Value) (m : Machine) (steps : List Step) (x : Run Value) :
    Prop :=
  ∀ e m', on x m = (.error e, m') → ∃ taken s rest st m₁, steps = taken ++ s :: rest
    ∧ on (follow (invoke depth) env taken []) m = (.ok st, m₁)
    ∧ on (s.run (invoke depth) env st) m₁ = (.error e, m')
    ∧ (Step.Settled taken s → s.FailedAtOwner (invoke depth) env st m₁ e m')
    ∧ ∀ fault report m₂, e = .fault fault → m'.current = some s.owner →
        on (Runner.report fault) m' = (.ok report, m₂) →
        ∃ text place, fault.message m'.heap = .ok text ∧ Runner.placeText m'.heap s.owner = .ok place
          ∧ report.outcome
            = .failure fault.kind (m'.headline fault text ++ "\nAt: " ++ place) s.owner.loc

namespace FailsAtOwner

variable {depth : Nat} {env : Value} {steps : List Step} {x : Run Value}

/-- What computes what steps do fails where they fail. -/
theorem of_computes (m : Machine) (hsteps : Step.Computes (invoke depth) env steps x) :
    FailsAtOwner depth env m steps x := by
  intro e m' he
  have hfollow : on (follow (invoke depth) env steps []) m = (.error e, m') := by
    rw [hsteps [], Stack.unwinding_nil, Run.on_bind_error he]
  obtain ⟨taken, s, rest, st, m₁, hplan, htaken, hs, -⟩ := Step.follow_error hfollow
  exact ⟨taken, s, rest, st, m₁, hplan, htaken, hs,
    fun hsettled => Step.failedAtOwner_of_settled hsettled htaken hs,
    fun fault report m₂ _ hcurrent hreport => Runner.report_at_current hcurrent hreport⟩

/-- The fault of a read, a write or a delete, and a refusal where nothing was visited since the node
was entered, are faults at their node, for every node and every program. -/
theorem settled_fault_is_at_owner (depth : Nat) (env : Value) (n : Node) (m : Machine) :
    FailsAtOwner depth env m n.plan (Eval.eval (invoke depth) env n)
    ∧ FailsAtOwner depth env m n.runPlan (Eval.run (invoke depth) env n) :=
  ⟨of_computes m (Step.computes_plan n), of_computes m (Step.computes_runPlan n)⟩

/-- The member `x` of null. -/
def nullMember : Node := .member (.literal .null none) (.str "x") none

/-- A machine that holds this node. -/
def withNullMember : Machine :=
  { Machine.blank with heap := (Machine.blank.heap.alloc (.node nullMember)).2 }

/-- The refusal of a null base is a step of the member that makes no call, but the operand is the
current node, and the report places the fault there. -/
theorem null_base_is_reported_at_operand :
    (∃ taken s rest st m₁ e m', nullMember.plan = taken ++ s :: rest ∧ s.owner = nullMember
      ∧ on (follow (invoke 1) (.object Machine.blank.globals) taken []) Machine.blank
        = (.ok st, m₁)
      ∧ on (s.run (invoke 1) (.object Machine.blank.globals) st) m₁ = (.error e, m')
      ∧ s.calls (.object Machine.blank.globals) st m₁ = []
      ∧ m'.current = some (.literal .null none))
    ∧ (match (on (Runner.execute (.object 4)) withNullMember).1 with
      | .ok ⟨.failure _ message _, _⟩ => message
      | _ => "") = "InvalidReferenceTarget: cannot use None as an access target\nAt: null" := by
  -- The step that fails is the third from the end: the base is refused after the operand was
  -- visited.
  refine ⟨⟨[nullMember.does .enter, (Node.literal .null none).does .enter,
    (Node.literal .null none).does (.push .null)], nullMember.does .base,
    [nullMember.does (.member (.str "x")), nullMember.does .read], _, _, _, _, rfl, rfl, rfl, rfl,
    rfl, rfl⟩, ?_⟩
  decide +kernel

end FailsAtOwner

end ChainScript
