import ChainScript.Run

/-!
# Faults up to strictness

A fault may carry the reference that it is about, and a reference remembers how strict the program
was that made it. Nothing that a program or a host sees of a fault depends on that: neither its
kind, nor its message, nor the access that it belongs to. `Fault.blunt` forgets it, and two faults
are alike when they are the same after that.

A fault is told when its message can be made. Every fault that is raised is told, since one whose
message cannot be made is replaced by the failure to make it.
-/

namespace ChainScript

namespace Reference

/-- The reference with the given strictness. -/
def strictly (ref : Reference) (strict : Bool) : Reference := { ref with strict }

/-- What is said last about the strictness of a reference counts. -/
@[simp] theorem strictly_strictly (ref : Reference) (s t : Bool) :
    (ref.strictly s).strictly t = ref.strictly t := rfl

end Reference

namespace Fault

/-- The fault with every reference in it made sloppy. -/
def blunt : Fault → Fault
  | .superDelete (.reference ref) => .superDelete (.reference (ref.strictly false))
  | .unbound name ref => .unbound name (ref.strictly false)
  | .unboundWrite name ref => .unboundWrite name (ref.strictly false)
  | .writeRefused key ref => .writeRefused key (ref.strictly false)
  | .deleteRefused key ref => .deleteRefused key (ref.strictly false)
  | .messageLost cause failure => .messageLost cause.blunt failure
  | fault => fault

/-- The kind of a fault does not depend on strictness. -/
@[simp] theorem kind_blunt (fault : Fault) : fault.blunt.kind = fault.kind := by
  cases fault with
  | superDelete subject => cases subject <;> rfl
  | _ => rfl

/-- The message of a fault does not depend on strictness. -/
@[simp] theorem message_blunt (h : Heap) (fault : Fault) :
    fault.blunt.message h = fault.message h := by
  cases fault with
  | superDelete subject => cases subject <;> rfl
  | _ => rfl

/-- Whether a fault is replaced as it arises does not depend on strictness. -/
theorem blunt_arising (h : Heap) (fault : Fault) :
    (fault.arising h).blunt = fault.blunt.arising h := by
  simp only [arising, message_blunt]
  cases fault.message h <;> rfl

/-- A fault arises as itself where its message can be made. -/
theorem arising_of_message {h : Heap} {fault : Fault} {text : Option String}
    (ht : fault.message h = .ok text) : fault.arising h = fault := by
  simp [arising, ht]

/-- What arises has a message that can be made. -/
theorem exists_message_arising (h : Heap) (fault : Fault) :
    ∃ text, (fault.arising h).message h = .ok text := by
  cases ht : fault.message h with
  | ok text => exact ⟨text, by rw [arising_of_message ht, ht]⟩
  | error failure => exact ⟨none, by simp only [arising, ht]; rfl⟩

/-- Whether only a strict reference raises a fault does not depend on how strict it is. -/
@[simp] theorem isRefusal_blunt (fault : Fault) : fault.blunt.isRefusal = fault.isRefusal := by
  cases fault with
  | superDelete subject => cases subject <;> rfl
  | messageLost cause failure =>
    cases cause with
    | superDelete subject => cases subject <;> rfl
    | _ => rfl
  | _ => rfl

/-- A write to an unbound identifier arises as a refusal, whatever the identifier is. -/
theorem isRefusal_unboundWrite (h : Heap) (name : Value) (ref : Reference) :
    (arising h (.unboundWrite name ref)).isRefusal = true := by
  unfold arising
  split <;> rfl

/-- A refused write arises as itself where its key can be shown. -/
theorem arising_writeRefused {h : Heap} {key : Value} {shown : String} (ref : Reference)
    (hk : h.inspect key = .ok shown) : arising h (.writeRefused key ref) = .writeRefused key ref := by
  have ht : (Fault.writeRefused key ref).message h
      = .ok (some ("cannot assign to " ++ shown ++ " of " ++ h.typeName ref.base)) := by
    simp only [message, hk]
    rfl
  exact arising_of_message ht

/-- So does a refused delete. -/
theorem arising_deleteRefused {h : Heap} {key : Value} {shown : String} (ref : Reference)
    (hk : h.inspect key = .ok shown) :
    arising h (.deleteRefused key ref) = .deleteRefused key ref := by
  have ht : (Fault.deleteRefused key ref).message h
      = .ok (some ("cannot delete " ++ shown ++ " of " ++ h.typeName ref.base)) := by
    simp only [message, hk]
    rfl
  exact arising_of_message ht

/-- A refused write arises as a refusal where its key can be shown. -/
theorem isRefusal_writeRefused {h : Heap} {key : Value} {shown : String} (ref : Reference)
    (hk : h.inspect key = .ok shown) : (arising h (.writeRefused key ref)).isRefusal = true := by
  rw [arising_writeRefused ref hk]
  rfl

/-- A refused delete arises as a refusal where its key can be shown. -/
theorem isRefusal_deleteRefused {h : Heap} {key : Value} {shown : String} (ref : Reference)
    (hk : h.inspect key = .ok shown) : (arising h (.deleteRefused key ref)).isRefusal = true := by
  rw [arising_deleteRefused ref hk]
  rfl

end Fault

namespace Stop

/-- Two ends that differ at most in the strictness of what they are about. -/
inductive Alike : Stop → Stop → Prop
  | fault {f g : Fault} (h : f.blunt = g.blunt) : Alike (.fault f) (.fault g)
  | outside (detour : Option Detour) : Alike (.outside detour) (.outside detour)

/-- Every end is like itself. -/
theorem Alike.refl : (stop : Stop) → stop.Alike stop
  | .fault _ => .fault rfl
  | .outside detour => .outside detour

/-- The message of the fault, if it is one, can be made on the heap. -/
def Told (h : Heap) : Stop → Prop
  | .fault cause => ∃ text, cause.message h = .ok text
  | .outside _ => True

/-- The end is a fault that only a strict reference raises. -/
def Refused : Stop → Prop
  | .fault cause => cause.isRefusal = true
  | .outside _ => False

/-- The kind of the fault that a run ended with, if it ended with one. -/
def kindOf? {α : Type} : Except Stop α → Option FaultKind
  | .error (.fault cause) => some cause.kind
  | _ => none

/-- The detour at which a run ended outside, if it did. -/
def detour? {α : Type} : Except Stop α → Option Detour
  | .error (.outside detour) => detour
  | _ => none

end Stop

end ChainScript
