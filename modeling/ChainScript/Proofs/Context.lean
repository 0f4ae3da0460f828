import ChainScript.Proofs.LockstepEval
import ChainScript.Proofs.Outcome

/-!
# Programs with a hole

A context is a program in which one node is left open. It has a constructor for each position of a
node in another: an operand, the target of an assignment, the operand of a `delete`, what is called,
an argument, a value of an object literal, a statement. Nothing is evaluated twice, so evaluation
comes to the hole at most once, and `Context.lead` is what it does before.

A node that stands in a list is a value, which is not evaluated, so a list is no context.
-/

namespace ChainScript

open Run (on)

namespace Run

variable {α β : Type} {m : Machine}

/-- If the action, started on the machine, comes to a value, then `Q` holds of the value and of the
machine that is left. -/
def Ensures (x : Run α) (m : Machine) (Q : α → Machine → Prop) : Prop :=
  ∀ a m', on x m = (.ok a, m') → Q a m'

/-- What goes on from an action ensures what it ensured before. -/
theorem Ensures.after {x : Run α} {f : α → Run β} {Q : β → Machine → Prop}
    (hx : Ensures (x >>= f) m Q) {a : α} {m' : Machine} (ha : on x m = (.ok a, m')) :
    Ensures (f a) m' Q :=
  fun b m'' hb => hx b m'' ((on_bind_ok ha).trans hb)

/-- What goes on from each value that is come to with a guarantee gives that guarantee. -/
theorem Ensures.bind {x : Run α} {f : α → Run β} {Q : β → Machine → Prop}
    (hf : ∀ a m', on x m = (.ok a, m') → Ensures (f a) m' Q) : Ensures (x >>= f) m Q := by
  intro b m'' hb
  rw [on_bind] at hb
  rcases hx : on x m with ⟨e | a, m'⟩
  · rw [hx] at hb
    cases hb
  · rw [hx] at hb
    exact hf a m' hx b m'' hb

/-- What is ensured behind a veil is so on either side of it. -/
theorem Ensures.alike {V : Veil} {x y : Run α} {Q Q' : α → Machine → Prop} (hxy : V.Alike x y)
    (hQ : ∀ {a m' k}, V.same m'.marks k → Q a m' → Q' a (m'.marked k)) {k : Marks}
    (hk : V.same m.marks k) (hx : Ensures x m Q) : Ensures y (m.marked k) Q' := by
  intro a m' ha
  obtain ⟨k', hk', hy⟩ := hxy m k hk
  rw [hy] at ha
  rcases hxm : on x m with ⟨e | a', m₁⟩
  · rw [hxm] at ha
    cases ha
  · rw [hxm] at ha hk'
    cases ha
    exact hQ hk' (hx a m₁ hxm)

end Run

/-- The action leaves a machine that has the invariant if it was started on one. -/
def Invariant.Keeps {α : Type} (I : Invariant) (x : Run α) : Prop :=
  ∀ m, I.holds m → I.holds (on x m).2

namespace Invariant.Keeps

variable {α β : Type} {I : Invariant}

/-- Actions that keep an invariant keep it one after the other. -/
theorem bind {x : Run α} {f : α → Run β} (hx : I.Keeps x) (hf : ∀ a, I.Keeps (f a)) :
    I.Keeps (x >>= f) := by
  intro m hm
  rw [Run.on_bind]
  have hm' := hx m hm
  rcases hxm : on x m with ⟨e | a, m'⟩
  · rw [hxm] at hm'
    exact hm'
  · rw [hxm] at hm'
    exact hf a m' hm'

/-- What runs in lockstep with itself keeps the invariant, where nothing is barred. -/
theorem of_lockstep {x : Run α} {R : α → α → Heap → Prop} (hI : I.guard = .none)
    (hx : ∀ h, (Pairing.level I).Lockstep h R x x) : I.Keeps x := by
  intro m hm
  have hends := hx m.heap m m.strict m.strict rfl hm (Pairing.strictness_self _ _)
  revert hends
  show Pairing.Ends _ _ _ _ (on x m) (on x m) → _
  generalize on x m = p
  intro hends
  cases hends with
  | value _ hi | stop _ _ _ hi => exact I.strictly hi _
  | refusal hl _ => exact hl.elim
  | around hp =>
    rw [Pairing.guard, Pairing.level, hI] at hp
    exact (Run.not_detoured_none _ hp).elim

end Invariant.Keeps

/-- A program in which one node is left open. -/
inductive Context where
  | hole
  | member (obj : Context) (name : Value) (loc : Option Location)
  | indexBase (obj : Context) (key : Node) (loc : Option Location)
  | indexKey (obj : Node) (key : Context) (loc : Option Location)
  | chainBase (obj : Context) (resolver : Node) (loc : Option Location)
  | chainResolver (obj : Node) (resolver : Context) (loc : Option Location)
  | target (target : Context) (value : Node) (loc : Option Location)
  | assigned (target : Node) (value : Context) (loc : Option Location)
  | deleted (target : Context) (loc : Option Location)
  | callee (callee : Context) (args : List Node) (loc : Option Location)
  | argument (callee : Node) (before : List Node) (arg : Context) (after : List Node)
    (loc : Option Location)
  | entry (before : List (Value × Node)) (name : Value) (value : Context)
    (after : List (Value × Node)) (loc : Option Location)
  | statement (before : List Node) (n : Context) (after : List Node) (strict : Bool)
    (loc : Option Location)

namespace Context

/-- The program with the node in its hole. -/
def fill (n : Node) : Context → Node
  | hole => n
  | member obj name loc => .member (obj.fill n) name loc
  | indexBase obj key loc => .index (obj.fill n) key loc
  | indexKey obj key loc => .index obj (key.fill n) loc
  | chainBase obj resolver loc => .chain (obj.fill n) resolver loc
  | chainResolver obj resolver loc => .chain obj (resolver.fill n) loc
  | target t v loc => .assign (t.fill n) v loc
  | assigned t v loc => .assign t (v.fill n) loc
  | deleted t loc => .delete (t.fill n) loc
  | callee f args loc => .call (f.fill n) args loc
  | argument f before arg after loc => .call f (before ++ arg.fill n :: after) loc
  | entry before name v after loc => .objectLiteral (before ++ (name, v.fill n) :: after) loc
  | statement before s after strict loc => .program (before ++ s.fill n :: after) strict loc

/-- Whether the program denotes a place, and the hole is further inside. -/
def isPlace : Context → Bool
  | member .. | indexBase .. | indexKey .. | chainBase .. | chainResolver .. => true
  | _ => false

/-- Whether nothing is around the hole. -/
def isHole : Context → Bool
  | hole => true
  | _ => false

/-- Whether the hole is the target of an assignment. -/
def assigns : Context → Bool
  | hole => false
  | target t _ _ => t.isHole || t.assigns
  | member c _ _ | indexBase c _ _ | indexKey _ c _ | chainBase c _ _ | chainResolver _ c _
  | assigned _ c _ | deleted c _ | callee c _ _ | argument _ _ c _ _ | entry _ _ c _ _
  | statement _ c _ _ _ => c.assigns

/-- What evaluation does before it comes to the hole, but for the visits of nodes. -/
def lead (call : Caller) (env : Value) : Context → Run Unit
  | hole => pure ()
  | member c _ _ | indexBase c _ _ | chainBase c _ _ | deleted c _ | callee c _ _ => c.lead call env
  | indexKey obj c _ => do
    let _ ← Ordinary.toObject (← Eval.eval call env obj)
    c.lead call env
  | chainResolver obj c _ => do
    let _ ← Eval.eval call env obj
    c.lead call env
  | target c _ _ =>
    -- An assignment to what is no place is refused before anything in it is evaluated.
    if c.isHole || c.isPlace then c.lead call env else Run.failNative .syntaxError
  | assigned t c _ =>
    if t.isReference then do
      let _ ← Eval.reference call env t
      c.lead call env
    else Run.failNative .syntaxError
  | argument f before c _ _ => do
    let _ ← Eval.eval call env f
    let _ ← Eval.evalAll call env before
    c.lead call env
  | entry before _ c _ _ => do
    let record ← Run.alloc (.record .plain .empty none false)
    Eval.evalEntries call env record before
    c.lead call env
  | statement before c _ strict _ => do
    modify fun m => m.strictly (m.strict || strict)
    let _ ← Eval.evalBody call env .undefined before
    c.lead call env

/-- Where evaluation comes to the hole, `P` holds of the machine. -/
def AtHole (call : Caller) (env : Value) (c : Context) (P : Machine → Prop) (m : Machine) : Prop :=
  (c.lead call env).Ensures m fun _ => P

variable {call call' : Caller} {env : Value}

/-- Evaluation comes to the hole alike if the calls on the way are made alike. -/
theorem alike_lead {V : Veil} (hcall : V.Callers call call') (c : Context) :
    V.Alike (c.lead call env) (c.lead call' env) := by
  induction c with
  | hole => exact .pure ()
  | member _ _ _ ih | indexBase _ _ _ ih | chainBase _ _ _ ih | deleted _ _ ih | callee _ _ _ ih =>
    exact ih
  | indexKey obj _ _ ih =>
    exact (Veil.alike_eval hcall env obj).bind fun v => .after (Ordinary.quiet_toObject v) fun _ => ih
  | chainResolver obj _ _ ih => exact (Veil.alike_eval hcall env obj).bind fun _ => ih
  | target t _ _ ih =>
    rw [lead, lead]
    split
    · exact ih
    · exact .failNative _
  | assigned t _ _ ih =>
    rw [lead, lead]
    split
    · exact (Veil.alike_reference hcall env t).bind fun _ => ih
    · exact .failNative _
  | argument f before _ _ _ ih =>
    exact (Veil.alike_eval hcall env f).bind fun _ =>
      (Veil.alike_evalAll hcall env before).bind fun _ => ih
  | entry before _ _ _ _ ih =>
    exact .after (.alloc _) fun record =>
      (Veil.alike_evalEntries hcall env record before).bind fun _ => ih
  | statement before _ _ _ _ ih =>
    refine Veil.Alike.bind (fun _ k hk => ⟨k, hk, rfl⟩) fun _ => ?_
    exact (Veil.alike_evalBody hcall env _ before).bind fun _ => ih

/-- What holds at the hole behind a veil does so on either side of it. -/
theorem AtHole.alike {V : Veil} (hcall : V.Callers call call') {c : Context} {P P' : Machine → Prop}
    (hP : ∀ {m k}, V.same m.marks k → P m → P' (m.marked k)) {m : Machine} {k : Marks}
    (hk : V.same m.marks k) (hc : c.AtHole call env P m) : c.AtHole call' env P' (m.marked k) :=
  Run.Ensures.alike (alike_lead hcall c) hP hk hc

/-- What everything keeps is kept on the way to the hole. -/
theorem keeps_lead {I : Invariant} (hI : I.guard = .none) (hcall : (Pairing.level I).Callers call call)
    (c : Context) : I.Keeps (c.lead call env) := by
  have heval : ∀ n, I.Keeps (Eval.eval call env n) := fun n =>
    .of_lockstep hI fun h => Pairing.paired_eval hcall env n h
  induction c with
  | hole => exact fun _ hm => hm
  | member _ _ _ ih | indexBase _ _ _ ih | chainBase _ _ _ ih | deleted _ _ ih | callee _ _ _ ih =>
    exact ih
  | indexKey obj _ _ ih =>
    refine (heval obj).bind fun v => ?_
    exact Invariant.Keeps.bind (.of_lockstep hI fun _ => Pairing.steady_toObject v) fun _ => ih
  | chainResolver obj _ _ ih => exact (heval obj).bind fun _ => ih
  | target t _ _ ih =>
    rw [lead]
    split
    · exact ih
    · exact fun _ hm => hm
  | assigned t _ _ ih =>
    rw [lead]
    split
    · exact .bind (.of_lockstep hI fun h => Pairing.lockstep_reference hcall env t h) fun _ => ih
    · exact fun _ hm => hm
  | argument f before _ _ _ ih =>
    refine (heval f).bind fun _ => ?_
    exact .bind (.of_lockstep hI fun h => Pairing.paired_evalAll hcall env before h) fun _ => ih
  | entry before _ _ _ _ ih =>
    refine .bind (.of_lockstep hI fun _ => Pairing.steady_alloc rfl) fun record => ?_
    exact .bind (.of_lockstep hI fun h => Pairing.paired_evalEntries hcall env record before h)
      fun _ => ih
  | statement before _ _ _ _ ih =>
    refine .bind (fun _ hm => I.strictly hm _) fun _ => ?_
    exact .bind (.of_lockstep hI fun h => Pairing.paired_evalBody hcall env _ before h) fun _ => ih

end Context

end ChainScript
