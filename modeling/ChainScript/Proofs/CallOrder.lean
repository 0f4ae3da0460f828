import ChainScript.Proofs.PlanEval
import ChainScript.Runner

/-!
# The calls of an evaluation

A node is evaluated by its plan, and a step of the plan makes at most one call: the getter, the
setter or the handler of an access, what the host does about an attribute that it looks after, or
the function that a call names. So the calls that evaluating a node makes are those of its steps, in
the order of the plan. Where a step fails, the calls are those of the steps before it, and its own
if it failed after it was made.

What the host does about an attribute is one call of a step, whatever is called in its turn. To
delete an attribute the host looks whether it is there, by reading it.

Which calls are made is seen by evaluating with a caller that leaves them in the log. Since no run
looks at the log, this caller does what the one that it replaces does.
-/

namespace ChainScript

open Run (on Quiet)

/-! ## Noting calls -/

/-- The caller that leaves each of its calls in the log, and nothing else of what happens meanwhile.
-/
def Caller.noted (call : Caller) : Caller := fun f arguments => do
  let before := (← get).log
  let note : Run Unit := modify fun m => { m with log := before ++ [⟨f, arguments⟩] }
  try
    let answer ← call f arguments
    note
    return answer
  catch stop =>
    note
    throw stop

/-- The machine with another log. -/
def Machine.logging (m : Machine) (log : List CallRecord) : Machine := { m with log }

/-- A machine that is given a log has it. -/
@[simp] theorem Machine.logging_log (m : Machine) (log : List CallRecord) :
    (m.logging log).log = log := rfl

/-- The calls that an action makes. -/
def callsOf {α : Type} (x : Caller → Run α) (call : Caller) (m : Machine) : List CallRecord :=
  (on (x call.noted) (m.logging [])).2.log

namespace Caller

variable {call : Caller}

/-- A noted call does what the call does, and leaves itself as the last entry of the log. -/
theorem on_noted (f : Value) (arguments : List Value) (m : Machine) :
    on (call.noted f arguments) m = ((on (call f arguments) m).1,
      (on (call f arguments) m).2.logging (m.log ++ [⟨f, arguments⟩])) := by
  rw [noted, Run.on_bind, Run.on_get]
  simp only [Run.on_tryCatch, Run.on_bind]
  rcases on (call f arguments) m with ⟨_ | _, _⟩ <;> rfl

/-- Noting its calls does not change what a caller does. -/
theorem callers_noted (hcall : Veil.ofLog.Callers call call) :
    Veil.ofLog.Callers call call.noted := by
  intro f arguments m k hk
  obtain ⟨k', hk', hcalled⟩ := hcall f arguments m k hk
  refine ⟨⟨k'.current, (m.marked k).log ++ [⟨f, arguments⟩], k'.trace⟩, hk', ?_⟩
  rw [on_noted, hcalled]
  rfl

end Caller

namespace Run

variable {α β : Type} {Q : α → Prop}

/-- What the action comes to, if it comes to a value, is as said. -/
def Comes (Q : α → Prop) (x : Run α) : Prop := ∀ m a, (on x m).1 = .ok a → Q a

/-- An answer is as is said of it. -/
theorem Comes.pure {a : α} (ha : Q a) : Comes Q (pure a) := by
  rintro m _ ⟨⟩
  exact ha

/-- A run that fails comes to no value. -/
theorem Comes.fail (fault : Fault) : Comes Q (fail fault) := by
  rintro m a ⟨⟩

/-- Nor does one that fails in a way of the host's own. -/
theorem Comes.failNative (kind : FaultKind) : Comes Q (failNative kind) := by
  rintro m a ⟨⟩

/-- What is as said is also as is said more loosely. -/
theorem Comes.mono {R : α → Prop} {x : Run α} (hx : Comes Q x) (hR : ∀ a, Q a → R a) :
    Comes R x := fun m a ha => hR a (hx m a ha)

/-- What goes on from what an action comes to. -/
theorem Comes.bind {R : β → Prop} {x : Run β} {f : β → Run α} (hx : Comes R x)
    (hf : ∀ b, R b → Comes Q (f b)) : Comes Q (x >>= f) := by
  intro m a ha
  rcases hxm : on x m with ⟨e | b, m'⟩
  · rw [on_bind_error hxm] at ha
    cases ha
  · rw [on_bind_ok hxm] at ha
    exact hf b (hx m b (by rw [hxm])) m' a ha

/-- Only the last action in a row matters. -/
theorem Comes.after {x : Run β} {f : β → Run α} (hf : ∀ b, Comes Q (f b)) : Comes Q (x >>= f) :=
  Comes.bind (R := fun _ => True) (fun _ _ _ => .intro) fun b _ => hf b

end Run

/-! ## Calls that a step ends with -/

namespace Pending

variable {α β : Type}

/-- A call that is pending ends the access, with an answer that is as said, unless it is what the
host does about an attribute. -/
def Final (good : α → Prop) : Pending α → Prop
  | .done _ => True
  | .call f _ finish =>
    (∃ name kind, f = .builtin (.attribute name kind)) ∨ ∀ v, ∃ a, finish v = .ok a ∧ good a

/-- A changed answer ends the access as well. -/
theorem Final.map {good : α → Prop} {p : Pending α} (hp : p.Final good) (f : α → β) :
    (p.map f).Final fun _ => True := by
  cases p with
  | done answer => exact .intro
  | call g arguments finish =>
    refine hp.imp_right fun hfinish v => ?_
    obtain ⟨a, ha, -⟩ := hfinish v
    exact ⟨f a, congrArg (Except.map f) ha, .intro⟩

end Pending

open Pending (Final)

namespace Ordinary

/-- The call of a getter ends a read. -/
theorem final_pendingGet (base key this : Value) :
    (pendingGet base key this).Comes (Final fun _ => True) := by
  refine .after fun h => ?_
  split
  · refine .after fun k => ?_
    split
    · exact .pure .intro
    · split
      · exact .pure .intro
      · exact .failNative _
      · exact .pure .intro
      · exact .pure (.inr fun v => ⟨v, rfl, .intro⟩)
  · exact .after fun _ => .pure .intro
  · exact .after fun _ => .pure .intro
  · split
    · exact .pure .intro
    · split
      · exact .pure (.inl ⟨_, _, rfl⟩)
      · exact .after fun _ => .pure .intro
    · exact .pure .intro

/-- After the call of a setter a slot is written. -/
theorem final_pendingSet (base key value this : Value) :
    (pendingSet base key value this).Comes (Final (· = true)) := by
  refine .after fun h => ?_
  split
  · refine .after fun k => ?_
    dsimp only
    split
    · exact .after fun _ => .pure .intro
    · exact .failNative _
    · exact .pure .intro
    · exact .pure (.inr fun v => ⟨true, rfl, rfl⟩)
  · exact .after fun _ => .after fun _ => .pure .intro
  · exact .pure .intro
  · split
    · split
      · exact .after fun _ => .pure .intro
      · exact .pure .intro
    · exact .pure .intro
  · split
    · split
      · exact .pure (.inl ⟨_, _, rfl⟩)
      · exact .after fun _ => .pure .intro
    · exact .pure .intro

/-- A delete makes no call of its own. -/
theorem final_pendingDelete (base key : Value) :
    (pendingDelete base key).Comes (Final (· = true)) := by
  refine .after fun h => ?_
  split
  · refine .after fun k => ?_
    split
    · exact .pure .intro
    · split
      · exact .pure .intro
      · exact .after fun _ => .pure .intro
  · exact .after fun _ => .after fun _ => .pure .intro
  · exact .after fun _ => .pure .intro
  · split
    · exact .pure .intro
    · split
      · exact .pure (.inl ⟨_, _, rfl⟩)
      · split
        · exact .after fun _ => .pure .intro
        · exact .pure .intro
    · exact .pure .intro

end Ordinary

namespace Dispatch

/-- The call of a handler ends an access. -/
theorem final_handler {α : Type} (handler : Handler) (arguments : List Value) (finish : Value → α) :
    Final (fun _ => True) (handler.pending arguments finish) :=
  .inr fun v => ⟨finish v, rfl, .intro⟩

/-- The call of a getter or a handler ends a read. -/
theorem final_pendingRead (ref : Reference) :
    (pendingRead ref).Comes (Final fun _ => True) := by
  unfold pendingRead
  split
  · split
    · exact .fail _
    · exact .after fun _ => .after fun _ => .pure .intro
  · exact .after fun _ => Ordinary.final_pendingGet _ _ _
  · exact .after fun handler => .after fun _ => .pure (final_handler handler _ _)

/-- What was done is no fault. -/
theorem refusal_of_done {α : Type} (ref : Reference) (fault : Fault) (answer : α) :
    refusal ref fault answer true = .ok answer := rfl

/-- The call of a setter or a handler ends a write. -/
theorem final_pendingWrite (ref : Reference) (value : Value) :
    (pendingWrite ref value).Comes (Final fun _ => True) := by
  unfold pendingWrite
  split
  · split
    · split
      · exact .fail _
      · exact .after fun _ => .after fun _ => .after fun _ => .pure .intro
    · exact .after fun _ => .after fun _ => .pure .intro
  · refine .after fun _ => (Ordinary.final_pendingSet _ _ _ _).bind fun pending hfinal => ?_
    cases pending with
    | done written => exact .after fun _ => .pure .intro
    | call f arguments finish =>
      refine .pure (hfinal.imp_right fun hfinish v => ⟨(), ?_, .intro⟩)
      obtain ⟨_, hv, rfl⟩ := hfinish v
      exact (congrArg (Except.bind · _) hv).trans (refusal_of_done _ _ _)
  · exact .after fun handler => .after fun _ => .pure (final_handler handler _ _)

/-- The call of a handler ends a delete. -/
theorem final_pendingDelete (ref : Reference) :
    (pendingDelete ref).Comes (Final fun _ => True) := by
  unfold pendingDelete
  split
  · exact .fail _
  · split
    · split
      · exact .pure .intro
      · exact .after fun _ => .after fun _ => .pure .intro
    · refine .after fun _ => (Ordinary.final_pendingDelete _ _).bind fun pending hfinal => ?_
      cases pending with
      | done deleted => exact .after fun _ => .pure .intro
      | call f arguments finish =>
        refine .pure (hfinal.imp_right fun hfinish v => ⟨true, ?_, .intro⟩)
        obtain ⟨_, hv, rfl⟩ := hfinish v
        exact (congrArg (Except.bind · _) hv).trans (refusal_of_done _ _ _)
    · exact .after fun handler => .after fun _ => .pure (final_handler handler _ _)

end Dispatch

namespace Act

/-- Whether a step may make a call. -/
def calls : Act → Bool
  | .read | .write | .delete | .call => true
  | _ => false

end Act

namespace Step

/-- The call that a step makes, if it makes one. -/
def calls (env : Value) (s : Step) (st : Stack) (m : Machine) : List CallRecord :=
  match (on (s.prepare env st) m).1 with
  | .ok (.call f arguments _) => [⟨f, arguments⟩]
  | _ => []

/-- The calls that steps make one after the other, until one fails. -/
def history (call : Caller) (env : Value) : List Step → Stack → Machine → List CallRecord
  | [], _, _ => []
  | s :: rest, st, m => s.calls env st m ++
    match on (s.run call env st) m with
    | (.ok st', m') => history call env rest st' m'
    | (.error _, _) => []

variable {call call' : Caller} {env : Value}

/-! ## What a step calls -/

/-- Up to its call a step leaves the log alone. -/
theorem log_prepare (env : Value) (s : Step) (st : Stack) (m : Machine) :
    (on (s.prepare env st) m).2.log = m.log := by
  unfold prepare
  have hquiet := Act.quiet_prepare env s.act st
  split
  · exact hquiet.log_eq { m with current := some s.owner }
  · exact hquiet.log_eq m

/-- Up to its call a step does not look at the marks. -/
theorem alike_prepare (V : Veil) (env : Value) (s : Step) (st : Stack) :
    V.Alike (s.prepare env st) (s.prepare env st) := by
  have hquiet : V.Alike (s.act.prepare env st) (s.act.prepare env st) :=
    .quiet (Act.quiet_prepare env s.act st)
  unfold prepare
  split
  · exact (Veil.Alike.visit s.owner).bind fun _ => hquiet
  · exact hquiet

/-- A step that is no access and no call has nothing pending. -/
theorem prepare_done {act : Act} (hact : act.calls = false) (env : Value) (st : Stack) :
    (act.prepare env st).Comes fun pending => ∃ st', pending = .done st' := by
  unfold Act.prepare
  -- One case for each act. The hypothesis excludes the three accesses and the call.
  split
  · exact .pure ⟨_, rfl⟩
  · exact .pure ⟨_, rfl⟩
  · exact .after fun _ => .after fun _ => .after fun _ => .pure ⟨_, rfl⟩
  · exact .after fun _ => .pure ⟨_, rfl⟩
  · exact .after fun _ => .pure ⟨_, rfl⟩
  · exact .after fun _ => .after fun _ => .pure ⟨_, rfl⟩
  · exact .after fun _ => .after fun _ => .after fun _ => .pure ⟨_, rfl⟩
  · exact .after fun _ => .after fun _ => .pure ⟨_, rfl⟩
  · exact .after fun _ => .pure ⟨_, rfl⟩
  · cases hact
  · cases hact
  · cases hact
  · exact .pure ⟨_, rfl⟩
  · exact .pure ⟨_, rfl⟩
  · exact .pure ⟨_, rfl⟩
  · cases hact
  · exact .after fun _ => .pure ⟨_, rfl⟩
  · refine .after fun _ => .after fun _ => ?_
    dsimp only
    split
    · exact .after fun _ => .pure ⟨_, rfl⟩
    · exact .pure ⟨_, rfl⟩
  · exact .after fun _ => .after fun _ => .pure ⟨_, rfl⟩
  · exact .pure ⟨_, rfl⟩
  · exact .after fun _ => .pure ⟨_, rfl⟩
  · exact .fail _
  · exact .failNative _

/-- The call that a step makes ends it, unless it is what the host does about an attribute. -/
theorem prepare_final (act : Act) (env : Value) (st : Stack) :
    (act.prepare env st).Comes (Final fun _ => True) := by
  cases hact : act.calls with
  | false =>
    refine (prepare_done hact env st).mono ?_
    rintro _ ⟨st', rfl⟩
    exact .intro
  | true =>
    unfold Act.prepare
    split
    any_goals cases hact
    · exact (Dispatch.final_pendingRead _).bind fun _ hp => .pure (hp.map _)
    · exact (Dispatch.final_pendingWrite _ _).bind fun _ hp => .pure (hp.map _)
    · exact (Dispatch.final_pendingDelete _).bind fun _ hp => .pure (hp.map _)
    · refine .after fun h => ?_
      split
      · exact .after fun _ => .pure (.inr fun v => ⟨_, rfl, .intro⟩)
      · exact .fail _
    · exact .failNative _

/-- A step that is no access and no call has nothing pending when its node has been entered. -/
theorem comes_done {s : Step} (hs : s.act.calls = false) (env : Value) (st : Stack) :
    (s.prepare env st).Comes fun pending => ∃ st', pending = .done st' := by
  unfold prepare
  split
  · exact .after fun _ => prepare_done hs env st
  · exact prepare_done hs env st

/-- The call that a step makes when its node has been entered ends it, unless it is what the host
does about an attribute. -/
theorem final_prepare (env : Value) (s : Step) (st : Stack) :
    (s.prepare env st).Comes (Final fun _ => True) := by
  unfold prepare
  split
  · exact .after fun _ => prepare_final s.act env st
  · exact prepare_final s.act env st

/-- A step calls nothing, or it is an access or a call and makes one call. -/
theorem calls_cases (s : Step) (env : Value) (st : Stack) (m : Machine) :
    s.calls env st m = [] ∨ s.act.calls = true ∧ ∃ c, s.calls env st m = [c] := by
  unfold calls
  split
  · rename_i f arguments hprepared
    refine .inr ⟨?_, _, rfl⟩
    by_contra hact
    rw [Bool.not_eq_true] at hact
    obtain ⟨st', hst'⟩ := comes_done hact env st _ _ hprepared
    cases hst'
  · exact .inl rfl

/-- The node that is current while a step does its own part. -/
def current (s : Step) (m : Machine) : Option Node :=
  if s.act.visits then some s.owner else m.current

/-- Up to its call a step leaves the current node alone, once it has made it its own. -/
theorem current_prepare (env : Value) (s : Step) (st : Stack) (m : Machine) :
    (on (s.prepare env st) m).2.current = s.current m := by
  have hquiet := Act.quiet_prepare env s.act st
  unfold prepare current
  split
  · exact hquiet.current_eq { m with current := some s.owner }
  · exact hquiet.current_eq m

/-- What a step ends with when the call that it made ended: it fails if the call did, and otherwise
only if the call was what the host does about an attribute. -/
def EndsWith (f : Value) (answer : Except Stop Value) (ended : Except Stop Stack) : Prop :=
  (∀ e, answer = .error e → ended = .error e)
  ∧ ∀ v e, answer = .ok v → ended = .error e → ∃ name kind, f = .builtin (.attribute name kind)

/-- What a step can come to, and with which machine. -/
inductive Outcome (call : Caller) (env : Value) (s : Step) (st : Stack) (m : Machine) :
    Except Stop Stack → Machine → Prop where
  /-- It fails by itself. -/
  | failed {e : Stop} {m' : Machine} (hcalls : s.calls env st m = []) (hlog : m'.log = m.log)
    (hcurrent : m'.current = s.current m) : Outcome call env s st m (.error e) m'
  /-- It succeeds by itself. -/
  | done {st' : Stack} {m' : Machine} (hcalls : s.calls env st m = []) (hlog : m'.log = m.log)
    (hcurrent : m'.current = s.current m) : Outcome call env s st m (.ok st') m'
  /-- It makes a call, and ends with it. -/
  | called {f : Value} {arguments : List Value} {m₁ m₂ m' : Machine} {answer : Except Stop Value}
    {ended : Except Stop Stack} (hact : s.act.calls = true)
    (hcalls : s.calls env st m = [⟨f, arguments⟩]) (hlog : m₁.log = m.log)
    (hcurrent : m₁.current = s.current m) (hcalled : on (call f arguments) m₁ = (answer, m₂))
    (hended : EndsWith f answer ended) (hleft : m'.log = m₂.log ∧ m'.current = m₂.current) :
    Outcome call env s st m ended m'

/-- The call that is pending ends what it is pending in. -/
theorem endsWith_resolve (call : Caller) {f : Value} {arguments : List Value}
    {finish : Value → Except Fault Stack}
    (hfinal : (Pending.call f arguments finish).Final fun _ => True) (st : Stack) (m₁ : Machine) :
    EndsWith f (on (call f arguments) m₁).1
        (on (st.unwinding ((Pending.call f arguments finish).resolve call)) m₁).1
      ∧ (on (st.unwinding ((Pending.call f arguments finish).resolve call)) m₁).2.log
        = (on (call f arguments) m₁).2.log
      ∧ (on (st.unwinding ((Pending.call f arguments finish).resolve call)) m₁).2.current
        = (on (call f arguments) m₁).2.current := by
  rw [Stack.on_unwinding, Pending.resolve, Run.on_bind]
  rcases on (call f arguments) m₁ with ⟨e | v, m₂⟩
  · refine ⟨⟨fun e' he => ?_, fun v e' hv => ?_⟩, rfl, rfl⟩
    · cases he
      rfl
    · cases hv
  · dsimp only
    cases hv : finish v with
    | ok st' =>
      refine ⟨⟨fun e he => ?_, fun v e _ he => ?_⟩, rfl, rfl⟩
      · cases he
      · cases he
    | error fault =>
      refine ⟨⟨fun e he => ?_, fun _ _ _ _ => ?_⟩, rfl, rfl⟩
      · cases he
      · rcases hfinal with hhost | hok
        · exact hhost
        · obtain ⟨a, ha, -⟩ := hok v
          cases hv.symm.trans ha

/-- What a step comes to is one of these. -/
theorem outcome (call : Caller) (env : Value) (s : Step) (st : Stack) (m : Machine) :
    Outcome call env s st m (on (s.run call env st) m).1 (on (s.run call env st) m).2 := by
  have hlog := log_prepare env s st m
  have hcurrent := current_prepare env s st m
  rw [run, Stack.unwinding_bind, Run.on_bind, Stack.on_unwinding]
  rcases hprepared : on (s.prepare env st) m with ⟨e | pending, m₁⟩
  · rw [hprepared] at hlog hcurrent
    have hcalls : s.calls env st m = [] := by rw [calls, hprepared]
    exact .failed hcalls hlog hcurrent
  · rw [hprepared] at hlog hcurrent
    cases pending with
    | done st' =>
      have hcalls : s.calls env st m = [] := by rw [calls, hprepared]
      exact .done hcalls hlog hcurrent
    | call f arguments finish =>
      have hcalls : s.calls env st m = [⟨f, arguments⟩] := by rw [calls, hprepared]
      have hact : s.act.calls = true := by
        rcases calls_cases s env st m with hnone | ⟨hact, -⟩
        · rw [hcalls] at hnone
          cases hnone
        · exact hact
      have hfinal := final_prepare env s st m _ (congrArg Prod.fst hprepared)
      obtain ⟨hended, hleft⟩ := endsWith_resolve call hfinal st m₁
      exact .called hact hcalls hlog hcurrent rfl hended hleft

/-! ## Where the calls are left -/

/-- A step that notes its calls leaves the one that it makes in the log. -/
theorem log_run (call : Caller) (env : Value) (s : Step) (st : Stack) (m : Machine) :
    (on (s.run call.noted env st) m).2.log = m.log ++ s.calls env st m := by
  have houtcome := outcome call.noted env s st m
  generalize on (s.run call.noted env st) m = ended at houtcome
  obtain ⟨stop, m'⟩ := ended
  cases houtcome with
  | failed hcalls hlog | done hcalls hlog =>
    rw [hcalls, List.append_nil]
    exact hlog
  | called _ hcalls hlog _ hcalled _ hleft =>
    rw [Caller.on_noted] at hcalled
    cases hcalled
    rw [hleft.1, hcalls, ← hlog]
    rfl

/-- Steps that note their calls leave their history in the log. -/
theorem log_follow (steps : List Step) (st : Stack) (m : Machine) :
    (on (follow call.noted env steps st) m).2.log = m.log ++ history call.noted env steps st m := by
  -- The induction is on the steps. After one that fails, neither the log nor the history goes on.
  induction steps generalizing st m with
  | nil => exact (List.append_nil _).symm
  | cons s rest ih =>
    have hlog := log_run call env s st m
    rw [follow, history]
    rcases hrun : on (s.run call.noted env st) m with ⟨e | st', m'⟩
    · rw [Run.on_bind_error hrun, List.append_nil]
      rw [hrun] at hlog
      exact hlog
    · rw [hrun] at hlog
      rw [Run.on_bind_ok hrun, ih, hlog, List.append_assoc]

/-- The history is the same behind a veil. -/
theorem history_eq {V : Veil} (hcall : V.Callers call call') (steps : List Step) (st : Stack)
    {m : Machine} {k : Marks} (hk : V.same m.marks k) :
    history call' env steps st (m.marked k) = history call env steps st m := by
  -- A step makes the same call behind the veil, and leaves the next one behind it.
  induction steps generalizing st m k with
  | nil => rfl
  | cons s rest ih =>
    have hcalls : s.calls env st (m.marked k) = s.calls env st m := by
      obtain ⟨k', -, hprepared⟩ := alike_prepare V env s st m k hk
      unfold calls
      rw [hprepared]
    have halike : V.Alike (s.run call env st) (s.run call' env st) :=
      ((alike_prepare V env s st).bind fun pending => .resolve hcall pending).unwinding st
    obtain ⟨k', hk', hrun⟩ := halike m k hk
    rw [history, history, hcalls, hrun]
    rcases hstep : on (s.run call env st) m with ⟨e | st', m'⟩
    · rfl
    · rw [hstep] at hk'
      exact congrArg _ (ih st' hk')

/-- Where following steps fails, it fails at one of them, and the history ends there. -/
theorem follow_error {steps : List Step} {st : Stack} {m m' : Machine} {e : Stop}
    (hfollow : on (follow call env steps st) m = (.error e, m')) :
    ∃ taken s rest st₁ m₁, steps = taken ++ s :: rest
      ∧ on (follow call env taken st) m = (.ok st₁, m₁)
      ∧ on (s.run call env st₁) m₁ = (.error e, m')
      ∧ history call env steps st m = history call env taken st m ++ s.calls env st₁ m₁ := by
  -- It is the first step, or one of those that follow it.
  induction steps generalizing st m with
  | nil => cases hfollow
  | cons s rest ih =>
    rw [follow] at hfollow
    rcases hrun : on (s.run call env st) m with ⟨e' | st', m₁⟩
    · rw [Run.on_bind_error hrun] at hfollow
      cases hfollow
      refine ⟨[], s, rest, st, m, rfl, rfl, hrun, ?_⟩
      show history call env (s :: rest) st m = s.calls env st m
      rw [history, hrun]
      exact List.append_nil _
    · rw [Run.on_bind_ok hrun] at hfollow
      obtain ⟨taken, t, later, st₂, m₂, rfl, htaken, ht, hhistory⟩ := ih hfollow
      refine ⟨s :: taken, t, later, st₂, m₂, rfl, ?_, ht, ?_⟩
      · rw [follow, Run.on_bind_ok hrun]
        exact htaken
      · rw [history, history, hrun, List.append_assoc]
        exact congrArg _ hhistory

end Step

/-! ## Places -/

namespace Node

/-- What is evaluated on the way to the place that a node denotes. -/
def operands : Node → List Node
  | .member obj _ _ => [obj]
  | .index obj key _ => [obj, key]
  | .chain obj resolver _ => [obj, resolver]
  | _ => []

/-- On the way to a place only its operands make calls. The place itself is not read. -/
theorem exists_operand_of_calls {target n : Node} {s : Step} (hs : s ∈ target.place n)
    (hcalls : s.act.calls = true) : ∃ o ∈ target.operands, s ∈ o.plan := by
  -- The steps of the node itself find the place, and none of these calls.
  have hown : ∀ {act : Act}, act.calls = false → s ≠ n.does act := by
    rintro act hact rfl
    rw [does, hact] at hcalls
    cases hcalls
  cases target with
  | member obj name loc =>
    simp only [place, toMember, List.mem_append, List.mem_cons, List.not_mem_nil, or_false] at hs
    rcases hs with hs | hs | hs
    · exact ⟨obj, List.mem_singleton_self obj, hs⟩
    · exact (hown rfl hs).elim
    · exact (hown rfl hs).elim
  | index obj key loc =>
    simp only [place, toIndex, List.mem_append, List.mem_singleton] at hs
    rcases hs with ((hs | hs) | hs) | hs
    · exact ⟨obj, List.mem_cons_self, hs⟩
    · exact (hown rfl hs).elim
    · exact ⟨key, List.mem_cons_of_mem _ (List.mem_singleton_self key), hs⟩
    · exact (hown rfl hs).elim
  | chain obj resolver loc =>
    simp only [place, toChain, List.mem_append, List.mem_singleton] at hs
    rcases hs with (hs | hs) | hs
    · exact ⟨obj, List.mem_cons_self, hs⟩
    · exact ⟨resolver, List.mem_cons_of_mem _ (List.mem_singleton_self resolver), hs⟩
    · exact (hown rfl hs).elim
  | _ =>
    simp only [place, List.mem_singleton] at hs
    exact (hown rfl hs).elim

end Node

open Step (history follow)

/-- The steps of an evaluation, and the calls that it makes. -/
structure InOrder (depth : Nat) (env : Value) (m : Machine) (steps : List Step)
    (x : Caller → Run Value) : Prop where
  /-- If it comes to a value, every step was taken. -/
  completed : ∀ v m', on (x (invoke depth)) m = (.ok v, m') ↔
    on (follow (invoke depth) env steps []) m = (.ok [.value v], m')
  /-- The calls are those of the steps, in order. -/
  calls : callsOf x (invoke depth) m = history (invoke depth) env steps [] m
  /-- If it fails, it fails at a step, with the calls of the steps before and the call of this step.
  -/
  failed : ∀ e m', on (x (invoke depth)) m = (.error e, m') →
    ∃ taken s rest st m₁, steps = taken ++ s :: rest
      ∧ on (follow (invoke depth) env taken []) m = (.ok st, m₁)
      ∧ on (s.run (invoke depth) env st) m₁ = (.error e, m')
      ∧ callsOf x (invoke depth) m = history (invoke depth) env taken [] m ++ s.calls env st m₁
  /-- To note the calls changes the log and nothing else. -/
  noted : ∃ log, on (x (invoke depth).noted) m
    = ((on (x (invoke depth)) m).1, (on (x (invoke depth)) m).2.logging log)

namespace InOrder

variable {depth : Nat} {env : Value} {steps : List Step} {x : Caller → Run Value}

/-- What steps compute with every caller is evaluated in their order. -/
theorem of_computes (m : Machine)
    (hsteps : ∀ call, Step.Computes call env steps (x call))
    (halike : Veil.ofLog.Alike (x (invoke depth)) (x (invoke depth).noted)) :
    InOrder depth env m steps x := by
  have hfollow : ∀ call, follow call env steps [] = do return [.value (← x call)] := by
    intro call
    rw [hsteps call [], Stack.unwinding_nil]
  have hcallers : Veil.ofLog.Callers (invoke depth) (invoke depth).noted :=
    Caller.callers_noted (Veil.callers_invoke _ depth)
  have hhistory : callsOf x (invoke depth) m = history (invoke depth) env steps [] m := by
    -- The log that is left by the evaluation is left by the steps, and these leave their history.
    have hnoted := hfollow (invoke depth).noted
    have hmachine : (on (follow (invoke depth).noted env steps []) (m.logging [])).2
        = (on (x (invoke depth).noted) (m.logging [])).2 := by
      rw [hnoted, Run.on_bind]
      rcases on (x (invoke depth).noted) (m.logging []) with ⟨_ | _, _⟩ <;> rfl
    calc callsOf x (invoke depth) m
        = (on (follow (invoke depth).noted env steps []) (m.logging [])).2.log := by
          rw [hmachine, callsOf]
      _ = history (invoke depth).noted env steps [] (m.logging []) := Step.log_follow _ _ _
      _ = history (invoke depth) env steps [] m :=
          Step.history_eq hcallers steps [] (k := ⟨m.current, [], m.trace⟩) ⟨rfl, rfl⟩
  refine ⟨fun v m' => ?_, hhistory, fun e m' he => ?_, ?_⟩
  · rw [hfollow, Run.on_bind]
    rcases on (x (invoke depth)) m with ⟨e | v', m₁⟩
    · constructor <;> rintro ⟨⟩
    · constructor
      · rintro ⟨⟩
        rfl
      · rintro ⟨⟩
        rfl
  · have hfails : on (follow (invoke depth) env steps []) m = (.error e, m') := by
      rw [hfollow, Run.on_bind_error he]
    obtain ⟨taken, s, rest, st, m₁, hplan, htaken, hs, hcalls⟩ := Step.follow_error hfails
    exact ⟨taken, s, rest, st, m₁, hplan, htaken, hs, hhistory.trans hcalls⟩
  · obtain ⟨k, ⟨hcurrent, htrace⟩, hx⟩ := halike m m.marks ⟨rfl, rfl⟩
    refine ⟨k.log, hx.trans ?_⟩
    rw [Machine.marked, hcurrent, htrace]
    rfl

/-- Nodes are evaluated, and programs run, from left to right and each operand once. Evaluating a
node takes the steps of its plan and makes their calls, in this order and up to the step that fails.
A step makes at most one call, and only an access or a call makes one. On the way to the place that
is written or deleted, no step makes a call that is not a step of an operand, so the place is not
read. -/
theorem evaluation_follows_plan (depth : Nat) (env : Value) (n : Node) (m : Machine) :
    InOrder depth env m n.plan (fun call => Eval.eval call env n)
    ∧ InOrder depth env m n.runPlan (fun call => Eval.run call env n)
    ∧ (∀ (s : Step) (st : Stack) (m : Machine), s.calls env st m = []
        ∨ s.act.calls = true ∧ ∃ c, s.calls env st m = [c])
    ∧ ∀ (target : Node), ∀ s ∈ target.place n, s.act.calls = true →
        ∃ o ∈ target.operands, s ∈ o.plan := by
  have hcallers : Veil.ofLog.Callers (invoke depth) (invoke depth).noted :=
    Caller.callers_noted (Veil.callers_invoke _ depth)
  refine ⟨?_, ?_, fun s st m => s.calls_cases env st m,
    fun target s hs hcalls => Node.exists_operand_of_calls hs hcalls⟩
  · exact of_computes m (fun _ => Step.computes_plan n) (Veil.alike_eval hcallers env n)
  · exact of_computes m (fun _ => Step.computes_runPlan n) (Veil.alike_run hcallers env n)

/-- A class with code behind the attribute `x` of its objects. -/
def measured : HostClass := { HostClass.plain with name := "Measured", computed := ["x"] }

/-- A machine with a function for reads of the attribute, one for deletes of it, and an object of
the class. -/
def withMeasured : Machine :=
  let (getter, heap) := Machine.blank.heap.alloc
    (.function ⟨some (.str "getter"), true, .constant (.int 1), .plain⟩)
  let (deleter, heap) := heap.alloc
    (.function ⟨some (.str "deleter"), true, .constant .null, .plain⟩)
  let (_, heap) := heap.alloc (.instance measured)
  { Machine.blank with
    heap := { heap with
      classParts := (heap.classParts.insert (.attribute measured "x" .get) (.object getter)).insert
        (.attribute measured "x" .delete) (.object deleter) } }

/-- The program that deletes the attribute. -/
def deleteMeasured : Node := .delete (.member (.value (.object 6)) (.str "x") none) none

/-- The delete makes one call, but the host runs the function for reads before the one for deletes.
-/
theorem delete_runs_getter :
    callsOf (fun call => Eval.eval call (.object withMeasured.globals) deleteMeasured) (invoke 3)
        withMeasured = [⟨.builtin (.attribute "x" .delete), [.object 6]⟩]
    ∧ (on (Eval.eval (invoke 3) (.object withMeasured.globals) deleteMeasured) withMeasured).2.log
      = [⟨.str "getter", [.object 6]⟩, ⟨.str "deleter", [.object 6]⟩] := by
  decide +kernel

end InOrder

end ChainScript
