import ChainScript.Proofs.Report
import ChainScript.Proofs.Veil

/-!
# The two ways to run a program

A host runs a program with `Runner.run`, which lets its fault pass, or with `Runner.execute`, which
reports how it ended. The second starts without a current node, awaits the value and makes a report.
No run looks at the current node, and reporting changes nothing. So both do the same and end in the
same way, on every runner and whatever ran on it before, up to what awaiting does: a value that can
be awaited puts off what it does until then.
-/

namespace ChainScript

open Run (on)

/-! ## Actions that cannot fail -/

namespace Run

variable {α β : Type}

/-- An action that comes to a value on every machine. -/
def Finishes (x : Run α) : Prop := ∀ m, ∃ a m', on x m = (.ok a, m')

/-- An answer is a value. -/
theorem Finishes.pure (a : α) : Finishes (pure a) := fun m => ⟨a, m, rfl⟩

/-- Making an object comes to the object. -/
theorem Finishes.alloc (o : Object) : Finishes (alloc o) := fun m => ⟨_, _, on_alloc o m⟩

/-- Actions that come to values come to one, one after the other. -/
theorem Finishes.bind {x : Run α} {f : α → Run β} (hx : Finishes x) (hf : ∀ a, Finishes (f a)) :
    Finishes (x >>= f) := by
  intro m
  obtain ⟨a, m₁, ha⟩ := hx m
  rw [on_bind_ok ha]
  exact hf a m₁

/-- An action for each item of a list comes to values if each one does. -/
theorem Finishes.mapM {f : α → Run β} (hf : ∀ a, Finishes (f a)) (as : List α) :
    Finishes (as.mapM f) := by
  induction as with
  | nil => rw [List.mapM_nil]; exact .pure _
  | cons a as ih =>
    rw [List.mapM_cons]
    exact (hf a).bind fun _ => ih.bind fun _ => .pure _

/-- Every node has a value. -/
theorem finishes_ofNode (n : Node) : Finishes (ofNode n) := by
  cases n with
  | value v => exact .pure _
  | _ => exact .alloc _

end Run

open Run (Finishes)

namespace Node

mutual

/-- The lists in a node can always be made. -/
theorem finishes_settle : ∀ n : Node, Finishes n.settle
  | .member obj name loc => by
    rw [settle]
    exact (finishes_settle obj).bind fun _ => .pure _
  | .index obj key loc => by
    rw [settle]
    exact (finishes_settle obj).bind fun _ => (finishes_settle key).bind fun _ => .pure _
  | .chain obj resolver loc => by
    rw [settle]
    exact (finishes_settle obj).bind fun _ => (finishes_settle resolver).bind fun _ => .pure _
  | .assign target v loc => by
    rw [settle]
    exact (finishes_settle target).bind fun _ => (finishes_settle v).bind fun _ => .pure _
  | .delete target loc => by
    rw [settle]
    exact (finishes_settle target).bind fun _ => .pure _
  | .call callee args loc => by
    rw [settle]
    exact (finishes_settle callee).bind fun _ => (finishes_settleAll args).bind fun _ => .pure _
  | .objectLiteral entries loc => by
    rw [settle]
    exact (finishes_settleEntries entries).bind fun _ => .pure _
  | .program body strict loc => by
    rw [settle]
    exact (finishes_settleAll body).bind fun _ => .pure _
  | .list items => by
    rw [settle]
    refine (finishes_settleAll items).bind fun settled => ?_
    refine (Finishes.mapM Run.finishes_ofNode settled).bind fun values => ?_
    exact (Finishes.alloc _).bind fun _ => .pure _
  | .literal .. | .identifier .. | .superMember .. | .other .. | .value .. => .pure _

/-- Nodes in a row are settled. -/
theorem finishes_settleAll : ∀ ns : List Node, Finishes (settleAll ns)
  | [] => .pure _
  | n :: ns => by
    rw [settleAll]
    exact (finishes_settle n).bind fun _ => (finishes_settleAll ns).bind fun _ => .pure _

/-- The entries of an object literal are settled. -/
theorem finishes_settleEntries : ∀ entries : List (Value × Node), Finishes (settleEntries entries)
  | [] => .pure _
  | (name, n) :: rest => by
    rw [settleEntries]
    exact (finishes_settle n).bind fun _ => (finishes_settleEntries rest).bind fun _ => .pure _

end

end Node

/-- A tree that denotes no program is refused before anything is made of it. -/
theorem Run.programOf_refused {tree : Value} {m m' : Machine} {e : Stop}
    (hprogram : on (programOf tree) m = (.error e, m')) : m' = m := by
  -- The tree is read first, which changes nothing. Once it is read, the lists in it can be made.
  have htransform : on (transform tree) m = (.error e, m') → m' = m := by
    intro htree
    unfold transform at htree
    rw [on_bind, on_heap] at htree
    cases hread : (m.heap.readTree tree).toNode with
    | ok n =>
      obtain ⟨settled, m₁, hsettle⟩ := n.finishes_settle m
      simp only [hread, hsettle] at htree
      cases htree
    | error fault =>
      simp only [hread, on_fail] at htree
      exact (congrArg Prod.snd htree).symm
  rw [programOf, on_bind, on_objectOf?] at hprogram
  dsimp only at hprogram
  split at hprogram
  · cases hprogram
  · rcases htree : on (transform tree) m with ⟨e' | n, m₁⟩
    · rw [on_bind_error htree] at hprogram
      cases hprogram
      exact htransform htree
    · rw [on_bind_ok htree] at hprogram
      cases hprogram

/-! ## Awaiting and reporting -/

/-- Whether a value is one that can be awaited. -/
def Heap.isAwaitable (h : Heap) (v : Value) : Bool :=
  match h.objectOf? v with
  | some (.awaitable ..) => true
  | _ => false

/-- The line that opens the report of a fault. A fault of the host's own has the words of the host.
-/
def Machine.headline (m : Machine) (fault : Fault) (text : Option String) : String :=
  fault.kind.reportName ++ ": " ++ text.getD (m.wording fault.kind)

/-- A report tells how a run ended that left the machine: its value, or its fault with the kind of
the fault and a message that opens with the headline. -/
def Report.Tells (report : Report) (m : Machine) : Except Stop Value → Prop
  | .ok v => report = ⟨.success v, none⟩
  | .error (.fault fault) => ∃ text rest loc, fault.message m.heap = .ok text ∧
    report = ⟨.failure fault.kind (m.headline fault text ++ rest) loc, some fault⟩
  | .error (.outside _) => False

namespace Runner

/-- What cannot be awaited is awaited in vain. -/
theorem on_await_of_not_awaitable {v : Value} {m : Machine} (hv : m.heap.isAwaitable v = false) :
    on (await v) m = (.ok v, m) := by
  rw [await, awaitBy, Run.on_bind, Run.on_objectOf?]
  unfold Heap.isAwaitable at hv
  cases ho : m.heap.objectOf? v with
  | none => rfl
  | some o =>
    rw [ho] at hv
    cases o with
    | awaitable once held body => cases hv
    | _ => rfl

/-- The report that is made of a fault tells it. -/
theorem tells_reportOf {fault : Fault} {message : Option String} {m : Machine} {report : Report}
    (hmessage : fault.message m.heap = .ok message)
    (hreport : reportOf fault message m = .ok report) :
    report.Tells m (.error (.fault fault)) := by
  unfold reportOf at hreport
  cases hcurrent : m.current with
  | none =>
    rw [hcurrent] at hreport
    cases hreport
    refine ⟨message, "", none, hmessage, ?_⟩
    rw [String.append_empty]
    rfl
  | some node =>
    simp only [hcurrent] at hreport
    cases hplace : placeText m.heap node with
    | ok place =>
      rw [hplace] at hreport
      cases hreport
      refine ⟨message, "\nAt: " ++ place, node.loc, hmessage, ?_⟩
      simp only [Machine.headline, String.append_assoc]
    | error failure =>
      rw [hplace] at hreport
      cases hreport

/-- A report tells how the attempt that it reports ended. -/
theorem tells_execute {tree : Value} {m m' : Machine} {report : Report}
    (hreport : on (execute tree) m = (.ok report, m')) :
    m' = (on (attempt tree) m).2 ∧ report.Tells m' (on (attempt tree) m).1 := by
  have hmachine : m' = (on (attempt tree) m).2 := by
    rw [← on_execute_machine, hreport]
  refine ⟨hmachine, ?_⟩
  subst hmachine
  rw [on_execute] at hreport
  -- A fault that makes the host leave passes, and so does one at a node that cannot be shown.
  rcases hattempt : on (attempt tree) m with ⟨e | value, m₁⟩
  · rw [hattempt] at hreport
    cases e with
    | fault fault =>
      obtain ⟨message, hmessage⟩ := exists_message_of_attempt hattempt
      dsimp only at hreport
      split at hreport
      · cases hreport
      · rw [on_report hmessage] at hreport
        cases hmade : reportOf fault message m₁ with
        | ok made =>
          rw [hmade] at hreport
          cases hreport
          exact tells_reportOf hmessage hmade
        | error failure =>
          rw [hmade] at hreport
          cases hreport
    | outside detour => cases hreport
  · rw [hattempt] at hreport
    cases hreport
    rfl

/-- An attempt does what running and awaiting do, up to the node that is current. -/
theorem on_attempt (tree : Value) (m : Machine) :
    ∃ current, on (attempt tree) m = ((on (run tree >>= await) m).1,
      { (on (run tree >>= await) m).2 with current }) := by
  -- An attempt is the same run on a machine that differs in the current node only.
  have hcall : Veil.ofCurrent.Callers call call := Veil.callers_invoke _ _
  have hrun : Veil.ofCurrent.Alike (run tree >>= await) (run tree >>= await) := by
    refine Veil.Alike.bind ?_ fun v => .after (.objectOf? v) fun o => ?_
    · refine .after (Run.quiet_programOf tree) fun program => ?_
      exact .get (fun m => Veil.alike_run hcall _ program) fun _ _ => rfl
    · split
      · exact hcall _ _
      · exact .pure _
  obtain ⟨k, ⟨hlog, htrace⟩, hattempt⟩ := hrun m ⟨none, m.log, m.trace⟩ ⟨rfl, rfl⟩
  refine ⟨k.current, hattempt.trans ?_⟩
  rw [Machine.marked, hlog, htrace]
  rfl

/-- A tree that denotes no program is refused by an attempt with no node current. -/
theorem on_attempt_refused {tree : Value} {m m₁ : Machine} {e : Stop}
    (hprogram : on (Run.programOf tree) m = (.error e, m₁)) :
    on (attempt tree) m = (.error e, { m with current := none }) := by
  obtain rfl := Run.programOf_refused hprogram
  let cleared : Machine := { m₁ with current := none }
  have hcleared : on (Run.programOf tree) cleared = (.error e, cleared) := by
    obtain ⟨lines, h⟩ := Run.quiet_programOf tree m₁
    have hprogram₂ := h cleared.marks
    rw [hprogram] at hprogram₂
    exact hprogram₂.trans (congrArg _ (Run.programOf_refused hprogram₂))
  have hrun : on (run tree) cleared = (.error e, cleared) := Run.on_bind_error hcleared
  exact Run.on_bind_error (f := await) hrun

/-- The report of a tree that denotes no program is the headline of its fault alone. -/
theorem execute_refused {tree : Value} {m m' : Machine} {e : Stop} {report : Report}
    (hprogram : (on (Run.programOf tree) m).1 = .error e)
    (hreport : on (execute tree) m = (.ok report, m')) :
    m' = { m with current := none } ∧ ∃ fault text, e = .fault fault
      ∧ fault.message m.heap = .ok text
      ∧ report = ⟨.failure fault.kind (m'.headline fault text) none, some fault⟩ := by
  have hattempt := on_attempt_refused (Prod.ext hprogram rfl)
  rw [on_execute, hattempt] at hreport
  cases e with
  | fault fault =>
    obtain ⟨text, htext⟩ := exists_message_of_attempt hattempt
    dsimp only at hreport
    split at hreport
    · cases hreport
    · rw [on_report htext] at hreport
      cases hreport
      exact ⟨rfl, fault, text, rfl, htext, rfl⟩
  | outside detour => cases hreport

/-- The two ways to run a program agree. Whenever the second reports, and the first comes to a value
that cannot be awaited or to a fault, the report tells that value or fault, and both leave the same
machine up to the node that is current: heap, registry, bindings, strictness, log of host calls and
trace. Where the first comes to a value that can be awaited, the report tells what awaiting it there
comes to, and the machine is the one that awaiting leaves. Of a tree that denotes no program the
report is the headline alone, and nothing has changed. -/
theorem execute_agrees_with_run {tree : Value} {m m' : Machine} {report : Report}
    (hreport : on (execute tree) m = (.ok report, m')) :
    (∀ v m₁, on (run tree) m = (.ok v, m₁) → m₁.heap.isAwaitable v = false →
        report = ⟨.success v, none⟩ ∧ ∃ current, m' = { m₁ with current })
    ∧ (∀ v m₁, on (run tree) m = (.ok v, m₁) → m₁.heap.isAwaitable v = true →
        report.Tells m' (on (await v) m₁).1 ∧ ∃ current, m' = { (on (await v) m₁).2 with current })
    ∧ (∀ e m₁, on (run tree) m = (.error e, m₁) →
        report.Tells m' (.error e) ∧ ∃ current, m' = { m₁ with current })
    ∧ (∀ e, (on (Run.programOf tree) m).1 = .error e →
        (on (run tree) m).1 = .error e ∧ m' = { m with current := none }
        ∧ ∃ fault text, e = .fault fault ∧ fault.message m.heap = .ok text
          ∧ report = ⟨.failure fault.kind (m'.headline fault text) none, some fault⟩) := by
  obtain ⟨hmachine, htells⟩ := tells_execute hreport
  obtain ⟨current, hattempt⟩ := on_attempt tree m
  rw [hattempt] at hmachine htells
  -- What a run comes to, awaiting goes on from.
  have hawaited : ∀ v m₁, on (run tree) m = (.ok v, m₁) →
      report.Tells m' (on (await v) m₁).1 ∧ m' = { (on (await v) m₁).2 with current } := by
    intro v m₁ hrun
    rw [Run.on_bind_ok hrun] at hmachine htells
    exact ⟨htells, hmachine⟩
  refine ⟨fun v m₁ hrun hno => ?_, fun v m₁ hrun _ => ?_, fun e m₁ hrun => ?_,
    fun e he => ⟨?_, execute_refused he hreport⟩⟩
  · obtain ⟨hvalue, hleft⟩ := hawaited v m₁ hrun
    rw [on_await_of_not_awaitable hno] at hvalue hleft
    exact ⟨hvalue, current, hleft⟩
  · obtain ⟨hvalue, hleft⟩ := hawaited v m₁ hrun
    exact ⟨hvalue, current, hleft⟩
  · rw [Run.on_bind_error hrun] at hmachine htells
    exact ⟨htells, current, hmachine⟩
  · have hrun := Run.on_bind_error (f := fun program => do Eval.run call (← globals) program)
      (Prod.ext he rfl : on (Run.programOf tree) m = (.error e, (on (Run.programOf tree) m).2))
    exact congrArg Prod.fst hrun

/-- A machine that holds the identifier `x`, which nothing binds, and on which another node is
current. -/
def stale : Machine :=
  { Machine.blank with
    heap := (Machine.blank.heap.alloc (.node (.identifier (.str "x") none))).2
    current := some (.literal .null none) }

/-- Reading `x` there fails, and is reported as it fails. -/
theorem unbound_identifier_is_told :
    ∃ fault report m' m₁, on (run (.object 4)) stale = (.error (.fault fault), m₁)
      ∧ fault.kind = .unresolvableReference
      ∧ on (execute (.object 4)) stale = (.ok report, m')
      ∧ report.Tells m' (.error (.fault fault))
      ∧ ∃ current, m' = { m₁ with current } := by
  have hkind : Stop.kindOf? (on (run (.object 4)) stale).1 = some .unresolvableReference := by
    decide +kernel
  have hok : (on (execute (.object 4)) stale).1.isOk = true := by decide +kernel
  rcases hreport : on (execute (.object 4)) stale with ⟨e | report, m'⟩
  · rw [hreport] at hok
    cases hok
  · have hagree := execute_agrees_with_run hreport
    rcases hrun : on (run (.object 4)) stale with ⟨(fault | _) | v, m₁⟩
    · rw [hrun] at hkind
      obtain ⟨htells, hmachine⟩ := hagree.2.2.1 _ _ hrun
      exact ⟨fault, report, m', m₁, rfl, Option.some.inj hkind, rfl, htells, hmachine⟩
    · rw [hrun] at hkind
      cases hkind
    · rw [hrun] at hkind
      cases hkind

/-- A machine with a record, a function that makes a coroutine, which writes to the record, and the
program that calls the function. -/
def withCoroutine : Machine :=
  let (record, heap) := Machine.blank.heap.alloc (.record .plain .empty none false)
  let body := HostProgram.set (.object record) (.str "x") (.int 1) .null
    fun done => .answer (.bool done)
  let (f, heap) := heap.alloc (.function ⟨none, false, .program [] fun _ =>
    .suspend true [.object record] body .answer, .plain⟩)
  let (_, heap) := heap.alloc (.node (.program [.call (.value (.object f)) [] none] false none))
  { Machine.blank with heap }

/-- Running that program leaves the record empty, and running it with a report does not. -/
theorem coroutine_writes_when_awaited :
    (on (run (.object 6)) withCoroutine).1.toOption = some (.object 7)
    ∧ (on (run (.object 6)) withCoroutine).2.heap.link? 4 = some (.empty, none)
    ∧ (on (execute (.object 6)) withCoroutine).1.isOk = true
    ∧ (on (execute (.object 6)) withCoroutine).2.heap.ownValue? 4 (.str "x") = some (.int 1) := by
  decide +kernel

end Runner

end ChainScript
