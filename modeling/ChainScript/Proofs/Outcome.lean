import ChainScript.Proofs.Veil

/-!
# Outcomes that look the same

A program may be replaced by another where whoever runs it sees no difference. Two things are no
difference: which node is current, for the nodes are not the same, and the trace, which says how a
place was spelled. Behind `Veil.butLog` neither is seen.

`Meets` compares two actions from one machine on. It has a rule for what both do before they differ,
`Meets.after`, and one for what both do afterwards, `Meets.bind`: what comes before leaves the
machine from which they are compared, and what comes after must not see the difference.
-/

namespace ChainScript

open Run (on)

/-- Two faults between which whoever meets them sees no difference. -/
structure Fault.Same (f g : Fault) : Prop where
  kind : f.kind = g.kind
  message : ∀ h, f.message h = g.message h
  subject : f.subject = g.subject
  access : f.access? = g.access?

/-- Two ends without a value between which there is no difference to see. -/
inductive Stop.Same : Stop → Stop → Prop
  | fault {f g : Fault} (hfg : f.Same g) : Same (.fault f) (.fault g)
  | outside (detour : Option Detour) : Same (.outside detour) (.outside detour)

/-- A fault is the same as itself. -/
theorem Fault.Same.refl (f : Fault) : f.Same f := ⟨rfl, fun _ => rfl, rfl, rfl⟩

/-- Faults that look the same do so as they arise. -/
theorem Fault.Same.arising {f g : Fault} (hfg : f.Same g) (h : Heap) :
    (f.arising h).Same (g.arising h) := by
  unfold Fault.arising
  rw [hfg.message h]
  cases g.message h with
  | ok _ => exact hfg
  | error failure => exact ⟨rfl, fun _ => rfl, rfl, rfl⟩

/-- A run stops as it stops. -/
theorem Stop.Same.refl : (e : Stop) → e.Same e
  | .fault f => .fault (.refl f)
  | .outside detour => .outside detour

namespace Machine

/-- The machines differ at most in the node that is current and in the trace. -/
def Like (m m' : Machine) : Prop := ∃ current trace, m' = { m with current, trace }

namespace Like

variable {m m' m'' : Machine}

/-- A machine is like itself. -/
theorem refl (m : Machine) : m.Like m := ⟨m.current, m.trace, rfl⟩

/-- Machines are like each other. -/
theorem symm (hm : m.Like m') : m'.Like m := by
  obtain ⟨current, trace, rfl⟩ := hm
  exact ⟨m.current, m.trace, rfl⟩

/-- What is like a like machine is like the machine. -/
theorem trans (hm : m.Like m') (hm' : m'.Like m'') : m.Like m'' := by
  obtain ⟨_, _, rfl⟩ := hm
  obtain ⟨current, trace, rfl⟩ := hm'
  exact ⟨current, trace, rfl⟩

/-- A machine that goes on to another node is still like it. -/
theorem visit (hm : m.Like m') (n : Node) : m.Like { m' with current := some n } :=
  hm.trans ⟨some n, m'.trace, rfl⟩

/-- Machines that are alike stay so when both are made as strict. -/
theorem strictly (hm : m.Like m') (strict : Bool) : (m.strictly strict).Like (m'.strictly strict) := by
  obtain ⟨current, trace, rfl⟩ := hm
  exact ⟨current, trace, rfl⟩

/-- Machines that are alike are as strict. -/
theorem strict_eq (hm : m.Like m') : m'.strict = m.strict := by
  obtain ⟨_, _, rfl⟩ := hm
  rfl

/-- They have the same log. -/
theorem log_eq (hm : m.Like m') : m'.log = m.log := by
  obtain ⟨_, _, rfl⟩ := hm
  rfl

/-- They have the same heap. -/
theorem heap_eq (hm : m.Like m') : m'.heap = m.heap := by
  obtain ⟨_, _, rfl⟩ := hm
  rfl

end Like

end Machine

/-- Two runs came to the same value, or ended with faults that look the same, and left machines that
differ at most in the node that is current and in the trace: with the same slots, bindings and
stores, and the same log of calls. -/
inductive SameOutcome {α : Type} : Except Stop α × Machine → Except Stop α × Machine → Prop
  | value (a : α) {m m' : Machine} (hm : m.Like m') : SameOutcome (.ok a, m) (.ok a, m')
  | stop {e e' : Stop} {m m' : Machine} (he : e.Same e') (hm : m.Like m') :
    SameOutcome (.error e, m) (.error e', m')

/-- An outcome that differs from another in nothing that can be seen. -/
theorem SameOutcome.of_like {α : Type} (ending : Except Stop α) {m m' : Machine} (hm : m.Like m') :
    SameOutcome (ending, m) (ending, m') := by
  cases ending with
  | ok a => exact .value a hm
  | error e => exact .stop (.refl e) hm

/-- The same outcome leaves machines that are alike. -/
theorem SameOutcome.like {α : Type} {p q : Except Stop α × Machine} (hpq : SameOutcome p q) :
    p.2.Like q.2 := by
  cases hpq with
  | value _ hm => exact hm
  | stop _ hm => exact hm

namespace Veil

/-- The veil behind which only the log of host calls is seen. -/
def butLog : Veil where
  same j k := k.log = j.log
  visit h _ := h
  record h _ := congrArg (· ++ _) h
  noting h _ := h

variable {α : Type}

/-- Behind this veil it cannot be told which node is visited. -/
theorem butLog_visit (n n' : Node) : butLog.Alike (Run.visit n) (Run.visit n') :=
  fun _ k hk => ⟨k.visit n', hk, rfl⟩

/-- Actions that are alike behind the veil end alike on machines that are. -/
theorem Alike.on_like {x y : Run α} (hxy : butLog.Alike x y) {m m' : Machine} (hm : m.Like m') :
    ∃ m₁, (on x m).2.Like m₁ ∧ on y m' = ((on x m).1, m₁) := by
  obtain ⟨current, trace, rfl⟩ := hm
  obtain ⟨k, hk, hy⟩ := hxy m ⟨current, m.log, trace⟩ rfl
  refine ⟨_, ⟨k.current, k.trace, ?_⟩, hy⟩
  rw [Machine.marked, hk]
  rfl

end Veil

namespace Run

variable {α β : Type} {m : Machine}

/-- From the machine on, and from every machine like it, the two actions have the same outcome. -/
def Meets (m : Machine) (x y : Run α) : Prop :=
  ∀ m₁ m₂, m.Like m₁ → m.Like m₂ → SameOutcome (on x m₁) (on y m₂)

namespace Meets

/-- Actions that are alike behind the veil have the same outcome. -/
theorem of_alike {x y : Run α} (hxy : Veil.butLog.Alike x y) : Meets m x y := by
  intro m₁ m₂ hm₁ hm₂
  obtain ⟨m', hm', hy⟩ := hxy.on_like (hm₁.symm.trans hm₂)
  rw [hy]
  exact .of_like _ hm'

/-- Actions that fail with the same fault have the same outcome. -/
theorem fail {f g : Fault} (hfg : f.Same g) : Meets m (Run.fail f : Run α) (Run.fail g) := by
  intro m₁ m₂ hm₁ hm₂
  have hm := hm₁.symm.trans hm₂
  obtain ⟨current, trace, rfl⟩ := hm
  rw [on_fail, on_fail]
  exact .stop (.fault (hfg.arising m₁.heap)) ⟨current, trace, rfl⟩

/-- What comes after does not see the difference. -/
theorem bind {x y : Run α} {f g : α → Run β} (hxy : Meets m x y)
    (hfg : ∀ a, Veil.butLog.Alike (f a) (g a)) : Meets m (x >>= f) (y >>= g) := by
  intro m₁ m₂ hm₁ hm₂
  have hends := hxy m₁ m₂ hm₁ hm₂
  rw [on_bind, on_bind]
  revert hends
  generalize on x m₁ = p, on y m₂ = q
  rintro (⟨a, hm⟩ | ⟨he, hm⟩)
  · exact of_alike (hfg a) _ _ (.refl _) hm
  · exact .stop he hm

/-- What comes before leaves a machine from which the actions are compared. -/
theorem after {x : Run α} {f g : α → Run β} (hx : Veil.butLog.Alike x x)
    (hfg : ∀ a m', on x m = (.ok a, m') → Meets m' (f a) (g a)) : Meets m (x >>= f) (x >>= g) := by
  intro m₁ m₂ hm₁ hm₂
  obtain ⟨m₁', hm₁', hx₁⟩ := hx.on_like hm₁
  obtain ⟨m₂', hm₂', hx₂⟩ := hx.on_like hm₂
  rw [on_bind, on_bind, hx₁, hx₂]
  rcases hxm : on x m with ⟨e | a, m'⟩
  · rw [hxm] at hm₁' hm₂'
    exact .stop (.refl e) (hm₁'.symm.trans hm₂')
  · rw [hxm] at hm₁' hm₂'
    exact hfg a m' hxm m₁' m₂' hm₁' hm₂'

/-- It does not matter which nodes are visited first. -/
theorem visit {x y : Run α} (n n' : Node) (hxy : Meets m x y) :
    Meets m (do Run.visit n; x) (do Run.visit n'; y) :=
  fun _ _ hm₁ hm₂ => hxy _ _ (hm₁.visit n) (hm₂.visit n')

/-- Actions with the same outcome have the same one within the same strictness. -/
theorem withStrict {x y : Run α} (strict : Bool)
    (hxy : Meets (m.strictly (m.strict || strict)) x y) :
    Meets m (Run.withStrict strict x) (Run.withStrict strict y) := by
  intro m₁ m₂ hm₁ hm₂
  rw [on_withStrict, on_withStrict, hm₁.strict_eq, hm₂.strict_eq]
  have hends := hxy _ _ (hm₁.strictly _) (hm₂.strictly _)
  revert hends
  generalize on x _ = p, on y _ = q
  rintro (⟨a, hm⟩ | ⟨he, hm⟩)
  · exact .value a (hm.strictly _)
  · exact .stop he (hm.strictly _)

end Meets

end Run

end ChainScript
