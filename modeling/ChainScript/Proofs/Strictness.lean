import ChainScript.Proofs.Report

/-!
# What strictness changes

A program that is run strictly does what it does when it is run sloppily, up to the point where a
strict reference refuses: at a write or a delete that fails, or at a write to an identifier that is
bound nowhere. Strictness changes nothing before that point, and nothing at all in a run that does
not come to such a point.

Where the unbound identifier cannot be shown, the failure to show it stands in the place of the
refusal. An identifier has such a name only where a host built its node, and the name is a symbol
that has lost its description.

Two detours are left out, at which a program learns how strict it is run: it reads the strictness of
the evaluator as an attribute, or the host catches a refusal because a function that stands behind
an attribute raised it, and the access comes to false or to undefined.
-/

namespace ChainScript

open Run (on)

namespace Strictness

/-- The guard against the detours at which strictness shows other than by a fault. -/
def hidden : Guard := .of [.readStrict, .forgive]

/-- Two ends of a run that a host cannot tell apart: the same value, or faults of the same kind with
the same message. -/
inductive SameEnd : Except Stop Value → Except Stop Value → Prop
  | value (v : Value) : SameEnd (.ok v) (.ok v)
  | fault {f g : Fault} (hkind : f.kind = g.kind) (hmessage : ∀ h, f.message h = g.message h) :
    SameEnd (.error (.fault f)) (.error (.fault g))
  | outside (detour : Option Detour) :
    SameEnd (.error (.outside detour)) (.error (.outside detour))

/-- A strict and a sloppy run that came to the same: they end in the same way, and leave the same
machine but for its strictness. The machine holds all slots, bindings and entries of stores, and the
log of the calls of host functions in their order. -/
def Agree (strict sloppy : Except Stop Value × Machine) : Prop :=
  SameEnd strict.1 sloppy.1 ∧ sloppy.2.strictly false = strict.2.strictly false

/-- Ends that differ in strictness alone are the same for a host. -/
theorem SameEnd.ofAlike {e e' : Stop} (he : e.Alike e') : SameEnd (.error e) (.error e') := by
  cases he with
  | outside detour => exact .outside detour
  | fault hfg =>
    refine .fault ?_ fun h => ?_
    · rw [← Fault.kind_blunt, hfg, Fault.kind_blunt]
    · rw [← Fault.message_blunt, hfg, Fault.message_blunt]

/-- The same end comes to a fault of the same kind, or to the same value. -/
theorem SameEnd.kind_value {p q : Except Stop Value} (hpq : SameEnd p q) :
    Stop.kindOf? p = Stop.kindOf? q ∧ p.toOption = q.toOption := by
  cases hpq with
  | value v => exact ⟨rfl, rfl⟩
  | fault hkind => exact ⟨congrArg some hkind, rfl⟩
  | outside detour => exact ⟨rfl, rfl⟩

/-- Runs in lockstep, of which the first is strict and the second is not, agree unless the first is
refused or comes to a barred detour. -/
theorem refused_or_agree_of_ends {P : Pairing} {p q : Except Stop Value × Machine}
    (hpq : P.Ends (fun a b _ => a = b) true false p q) :
    Run.Detoured P.guard p ∨ (∃ f : Fault, p.1 = .error (.fault f) ∧ f.isRefusal = true)
      ∨ Agree p q := by
  cases hpq with
  | value hab _ _ => exact .inr (.inr ⟨hab ▸ .value _, rfl⟩)
  | stop he _ _ _ _ => exact .inr (.inr ⟨.ofAlike he, rfl⟩)
  | around hp => exact .inl hp
  | @refusal e _ _ _ he =>
    cases e with
    | fault f => exact .inr (.inl ⟨f, rfl, he⟩)
    | outside => exact he.elim

/-- A machine with a symbol that has lost its description. -/
def undescribed : Machine :=
  { Machine.blank with heap := (Machine.blank.heap.alloc (.symbol none)).2 }

/-- The program that assigns `1` to the identifier which that symbol names. -/
def assignUndescribed : Node :=
  .program [.assign (.identifier (.object 4) none) (.literal (.int 1) none) none] false none

/-- The program that goes from the function to the evaluator and reads its strictness. -/
def readStrictness : Node :=
  .program [.member (.member (.member (.value (.object 6)) (.str "__self__") none)
    (.str "evaluator") none) (.str "strict") none] false none

/-- A class with code behind the attribute `x` of its objects. -/
def withCode : HostClass := { HostClass.plain with name := "Property", computed := ["x"] }

/-- A machine with a frozen record, a function that writes to it and stands behind the attribute, an
object of the class, and a function of the host that sets the attribute and answers whether it
could. -/
def withProperty : Machine :=
  let (record, heap) := Machine.blank.heap.alloc (.record .plain .empty none true)
  let (body, heap) := heap.alloc (.node (.assign
    (.member (.value (.object record)) (.str "a") none) (.literal (.int 1) none) none))
  let (setter, heap) := heap.alloc
    (.function ⟨none, false, .script ["self", "v"] (.object body), .plain⟩)
  let (o, heap) := heap.alloc (.instance withCode)
  let (_, heap) := heap.alloc (.function ⟨none, false, .program [] fun _ =>
    .set (.object o) (.str "x") (.int 1) .null fun done => .answer (.bool done), .plain⟩)
  { Machine.blank with
    heap := { heap with
      classParts := heap.classParts.insert (.attribute withCode "x" .set) (.object setter) } }

/-- The program that calls that function. -/
def setProperty : Node := .program [.call (.value (.object 8)) [] none] false none

/-- The strict run of a program ends neither in a refused write or delete nor with an unresolvable
reference, and the sloppy one does not agree with it. -/
def Unrefused (m : Machine) (program : Node) : Prop :=
  let strict := on (Eval.run (invoke 4) (.object m.globals) program) (m.strictly true)
  Stop.kindOf? strict.1 ∉ [some .strictWriteFailure, some .strictDeleteFailure,
      some .unresolvableReference]
    ∧ ¬Agree strict (on (Eval.run (invoke 4) (.object m.globals) program) (m.strictly false))

/-- Runs disagree where they end with faults of different kinds or with different values. -/
theorem Unrefused.of_ends {m : Machine} {program : Node}
    (hends :
      let strict := on (Eval.run (invoke 4) (.object m.globals) program) (m.strictly true)
      let sloppy := on (Eval.run (invoke 4) (.object m.globals) program) (m.strictly false)
      Stop.kindOf? strict.1 ∉ [some .strictWriteFailure, some .strictDeleteFailure,
          some .unresolvableReference]
        ∧ ¬(Stop.kindOf? strict.1 = Stop.kindOf? sloppy.1
          ∧ strict.1.toOption = sloppy.1.toOption)) : Unrefused m program :=
  ⟨hends.1, fun hagree => hends.2 hagree.1.kind_value⟩

end Strictness

end ChainScript
