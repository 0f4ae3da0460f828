import ChainScript.Proofs.Report
import ChainScript.Proofs.Watched

/-!
# The scope of strictness

A runner has a strictness of its own, and a program may ask for more. Strictness is scoped exactly,
as long as no program sets the strictness of the evaluator as an attribute: every reference that the
evaluator builds is as strict as the runner was at the outset, or strict if a program is that is
active at that moment, and once a run has ended the runner is as strict as before. The last holds of
every program, since a run puts the strictness back whatever was done to it meanwhile.

`strictness_is_scoped` says so by the evaluator under watch. A watcher that complains whenever a
reference has another strictness than that is never heard: the watched run does what the run does,
and leaves the same machine.
-/

namespace ChainScript

open Run (on)

/-- The guard against the detour by which a program sets the strictness of the evaluator. -/
def Guard.unset : Guard := .of [.writeStrict]

/-- The invariant of every machine with the given global environment, under that guard. -/
def Invariant.unset (globals : ObjectId) : Invariant := .trivial .unset globals

/-- An action that is the same with the guard and without it, unless it comes to the detour. -/
def Run.Unset {α : Type} (x y : Run α) : Prop :=
  ∀ globals h, (Pairing.level (.unset globals)).Paired h x y

/-- On a machine of the given strictness, an action does the same as a guarded one, which keeps that
strictness and comes to a value of which `Q` holds, unless the guarded one comes to the detour. -/
def Run.SameUnder {α : Type} (s : Bool) (Q : α → Prop) (x y : Run α) : Prop :=
  ∀ m : Machine, m.strict = s → Run.Detoured .unset (on y m)
    ∨ on x m = on y m ∧ (on y m).2.strict = s ∧ ∀ a, (on y m).1 = .ok a → Q a

namespace Run.SameUnder

variable {α β : Type} {s : Bool} {Q : α → Prop} {R : β → Prop}

/-- An action does the same without the guard as with it. -/
theorem of_unset {x y : Run α} (hxy : Unset y x) : SameUnder s (fun _ => True) x y := by
  rintro m rfl
  rcases (Invariant.unset m.globals).of_paired (hxy _) ⟨rfl, .intro⟩ with hp | ⟨heq, -, hstrict, -⟩
  · exact .inl hp
  · exact .inr ⟨heq.symm, heq ▸ hstrict rfl, fun _ _ => .intro⟩

/-- A value that is there is the same. -/
theorem pure {a : α} (ha : Q a) : SameUnder s Q (pure a) (pure a) := by
  refine fun m hm => .inr ⟨rfl, hm, ?_⟩
  rintro _ ⟨⟩
  exact ha

/-- So is a fault. -/
theorem fail (fault : Fault) : SameUnder s Q (Run.fail fault) (Run.fail fault) :=
  fun _ hm => .inr ⟨rfl, hm, fun _ ha => nomatch ha⟩

/-- So is a fault of the host's own. -/
theorem failNative (kind : FaultKind) : SameUnder s Q (Run.failNative kind) (Run.failNative kind) :=
  fun _ hm => .inr ⟨rfl, hm, fun _ ha => nomatch ha⟩

/-- What goes on alike from alike actions is alike. -/
theorem bind {x y : Run α} {f g : α → Run β} (hxy : SameUnder s Q x y)
    (hfg : ∀ a, Q a → SameUnder s R (f a) (g a)) : SameUnder s R (x >>= f) (y >>= g) := by
  intro m hm
  rcases hxy m hm with hp | ⟨hsame, hstrict, hvalue⟩
  · exact .inl (Run.detoured_bind hp)
  rw [on_bind, on_bind, hsame]
  rcases hends : on y m with ⟨e | a, m'⟩
  · rw [hends] at hstrict
    exact .inr ⟨rfl, hstrict, fun _ ha => nomatch ha⟩
  · rw [hends] at hstrict hvalue
    exact hfg a (hvalue a rfl) m' hstrict

/-- What follows an action that is the same without the guard may be told of its values. -/
theorem andThen {x y : Run α} {f g : α → Run β} (hxy : Unset y x)
    (hfg : ∀ a, SameUnder s R (f a) (g a)) : SameUnder s R (x >>= f) (y >>= g) :=
  (of_unset hxy).bind fun a _ => hfg a

/-- Replacing an object is no matter of strictness. -/
theorem put (id : ObjectId) (o : Object) :
    SameUnder s (fun _ => True) (Run.put id o) (Run.put id o) :=
  fun _ hm => .inr ⟨rfl, hm, fun _ _ => .intro⟩

/-- Nor is making one. -/
theorem alloc (o : Object) : SameUnder s (fun _ => True) (Run.alloc o) (Run.alloc o) :=
  fun _ hm => .inr ⟨rfl, hm, fun _ _ => .intro⟩

/-- Nor is leaving a call in the log. -/
theorem record (name : Value) (arguments : List Value) :
    SameUnder s (fun _ => True) (Invoke.record name arguments) (Invoke.record name arguments) :=
  fun _ hm => .inr ⟨rfl, hm, fun _ _ => .intro⟩

/-- What follows a look at the heap. -/
theorem look {x : Run α} {f g : α → Run β} (hx : x.Looks)
    (hfg : ∀ a, SameUnder s R (f a) (g a)) : SameUnder s R (x >>= f) (x >>= g) := by
  intro m hm
  obtain ⟨result, hresult, -⟩ := hx
  rw [on_bind, on_bind, hresult]
  cases result m.heap with
  | error e => exact .inr ⟨rfl, hm, fun _ ha => nomatch ha⟩
  | ok a => exact hfg a m hm

/-- What follows the machine goes on with one of the strictness. -/
theorem get {f g : Machine → Run β} (hfg : ∀ m : Machine, m.strict = s → SameUnder s R (f m) (g m)) :
    SameUnder s R (MonadState.get >>= f) (MonadState.get >>= g) :=
  fun m hm => hfg m hm m hm

/-- A fault that is caught is caught in both, with the same answer. -/
theorem catching {x y : Run α} (hxy : SameUnder s (fun _ => True) x y) (kinds : FaultKind → Bool)
    (otherwise : α) :
    SameUnder s (fun _ => True) (Run.catching .none kinds x otherwise)
      (Run.catching .unset kinds y otherwise) := by
  intro m hm
  simp only [Run.catching, on_tryCatch]
  rcases hxy m hm with ⟨d, hd, hp⟩ | ⟨hsame, hstrict, -⟩
  · refine .inl ⟨d, hd, ?_⟩
    revert hp
    rcases on y m with ⟨_ | _, _⟩ <;> rintro ⟨⟩
    rfl
  · rw [hsame]
    refine .inr ?_
    revert hstrict
    rcases on y m with ⟨(cause | detour) | a, m'⟩
    · intro hstrict
      dsimp only
      split
      · split
        · exact ⟨rfl, hstrict, fun _ _ => .intro⟩
        · exact ⟨rfl, hstrict, fun _ _ => .intro⟩
      · exact ⟨rfl, hstrict, fun _ _ => .intro⟩
    · exact fun hstrict => ⟨rfl, hstrict, fun _ _ => .intro⟩
    · exact fun hstrict => ⟨rfl, hstrict, fun _ _ => .intro⟩

/-- A stretch with a strictness of its own ends as strict as it began. -/
theorem withStrict {x y : Run α} {strict : Bool} (hxy : SameUnder (s || strict) Q x y) :
    SameUnder s Q (Run.withStrict strict x) (Run.withStrict strict y) := by
  rintro m rfl
  rw [on_withStrict, on_withStrict]
  rcases hxy (m.strictly (m.strict || strict)) rfl with ⟨d, hd, hp⟩ | ⟨hsame, -, hvalue⟩
  · exact .inl ⟨d, hd, hp⟩
  · rw [hsame]
    exact .inr ⟨rfl, rfl, hvalue⟩

end Run.SameUnder

/-- Two actions that do the same and keep the strictness. -/
abbrev Run.Same {α : Type} (s : Bool) (x y : Run α) : Prop := SameUnder s (fun _ => True) x y

/-- Two ways to call a value that do the same. -/
def SameCaller (s : Bool) (c c' : Caller) : Prop :=
  ∀ f arguments, Run.Same s (c f arguments) (c' f arguments)

namespace SameCaller

open Run (Same SameUnder)

variable {s : Bool} {c c' : Caller}

/-! ## Accesses -/

/-- An access is noted in the trace alone. -/
theorem same_note {parts : Run (List String)} (hparts : parts.Looks) :
    Same s (Run.note parts) (Run.note parts) :=
  .of_unset fun globals h => by
    have hnote : (Pairing.level (.unset globals)).Steady h (Run.note parts >>= pure) :=
      .note hparts (.pure rfl)
    rwa [bind_pure] at hnote

/-- So is a virtual one. -/
theorem same_noteVirtual (word : String) (resolver : Value) (handler : Handler) :
    Same s (Dispatch.noteVirtual word resolver handler)
      (Dispatch.noteVirtual word resolver handler) :=
  same_note (.bind .heap fun _ => .pure _)

/-- A slot of a record itself is written, unless the record is frozen. -/
theorem same_writeOwn (id : ObjectId) (k : Key) (label value : Value) :
    Same s (Ordinary.writeOwn id k label value) (Ordinary.writeOwn id k label value) :=
  .of_unset fun _ _ => (Pairing.lockstep_writeOwn _ _ _ _).mono fun _ _ _ hab => hab.1

/-- A read runs at most one getter. -/
theorem ordinaryGet (hc : SameCaller s c c') (base key this : Value) :
    Same s (Ordinary.get c base key this) (Ordinary.get c' base key this) := by
  refine .look .heap fun h => ?_
  split
  · refine .look (.keyOf key) fun k => ?_
    split
    · exact .pure .intro
    · split
      · exact .pure .intro
      · exact .failNative _
      · exact .pure .intro
      · exact hc _ _
  · exact .look (.keyOf key) fun k => .pure .intro
  · exact .look (.keyOf key) fun k => .pure .intro
  · split
    · exact .pure .intro
    · split
      · exact hc _ _
      · exact .andThen (fun _ _ => Pairing.steady_attributeGet _ _) fun v => .pure .intro
    · exact .pure .intro

/-- A write runs at most one setter. -/
theorem ordinarySet (hc : SameCaller s c c') (base key value this : Value) :
    Same s (Ordinary.set c base key value this) (Ordinary.set c' base key value this) := by
  refine .look .heap fun h => ?_
  split
  · refine .look (.keyOf key) fun k => ?_
    cases ((h.owner? k _).bind fun owner => h.ownValue? owner k).bind (Ordinary.accessor? h) with
    | none => exact same_writeOwn _ k key value
    | some accessor =>
      obtain ⟨getter, setter⟩ := accessor
      cases setter with
      | none => exact .failNative _
      | some setter =>
        cases setter with
        | null => exact .pure .intro
        | _ => exact (hc _ _).bind fun _ _ => .pure .intro
  · exact .look (.keyOf key) fun k => (SameUnder.put _ _).bind fun _ _ => .pure .intro
  · exact .pure .intro
  · split
    · split
      · exact (SameUnder.put _ _).bind fun _ _ => .pure .intro
      · exact .pure .intro
    · exact .pure .intro
  · split
    · split
      · exact (hc _ _).bind fun _ _ => .pure .intro
      · exact .of_unset fun _ _ => (Pairing.lockstep_attributeSet _ _ _).mono fun _ _ _ hab => hab.1
    · exact .pure .intro

/-- A delete makes at most one call, where the host looks after the attribute. -/
theorem ordinaryDelete (hc : SameCaller s c c') (base key : Value) :
    Same s (Ordinary.delete c base key) (Ordinary.delete c' base key) := by
  refine .look .heap fun h => ?_
  split
  · refine .look (.keyOf key) fun k => ?_
    split
    · exact .pure .intro
    · split
      · exact .pure .intro
      · exact (SameUnder.put _ _).bind fun _ _ => .pure .intro
  · exact .look (.keyOf key) fun k => (SameUnder.put _ _).bind fun _ _ => .pure .intro
  · exact .look (.keyOf key) fun k => .pure .intro
  · split
    · exact .pure .intro
    · split
      · exact (hc _ _).bind fun _ _ => .pure .intro
      · split
        · exact .of_unset fun _ _ => (Pairing.lockstep_attributeDelete _ _).mono fun _ _ _ hab => hab.1
        · exact .pure .intro
    · exact .pure .intro

/-- The key of an ordinary access is noted. -/
theorem same_noteOrdinary (word : String) (key : Value) :
    Same s (Dispatch.noteOrdinary word key) (Dispatch.noteOrdinary word key) :=
  .look (.inspect key) fun _ => same_note (.pure _)

/-- A reference is read alike. -/
theorem read (hc : SameCaller s c c') (ref : Reference) :
    Same s (Dispatch.read c ref) (Dispatch.read c' ref) := by
  unfold Dispatch.read
  split
  · split
    · exact .fail _
    · refine (same_note (.bind (.text _) fun _ => .pure _)).bind fun _ _ => ?_
      exact .of_unset fun _ _ => Pairing.steady_lookup _ _
  · exact (same_noteOrdinary _ _).bind fun _ _ => hc.ordinaryGet _ _ _
  · refine .andThen (fun _ _ => Pairing.steady_handler _ _) fun handler => ?_
    exact (same_noteVirtual _ _ handler).bind fun _ _ => hc _ _

/-- A reference is written alike. -/
theorem write (hc : SameCaller s c c') (ref : Reference) (value : Value) :
    Same s (Dispatch.write c ref value) (Dispatch.write c' ref value) := by
  unfold Dispatch.write
  split
  · split
    · split
      · exact .fail _
      · refine (same_note (.bind (.text _) fun _ => .pure _)).bind fun _ _ => .get fun m _ => ?_
        exact .of_unset fun _ _ => Pairing.steady_assign _ _ _
    · refine (same_note (.bind (.text _) fun _ => .pure _)).bind fun _ _ => ?_
      exact .of_unset fun _ _ => Pairing.steady_assign _ _ _
  · refine (same_noteOrdinary _ _).bind fun _ _ => ?_
    refine (hc.ordinarySet _ _ _ _).bind fun written _ => ?_
    split
    · exact .fail _
    · exact .pure .intro
  · refine .andThen (fun _ _ => Pairing.steady_handler _ _) fun handler => ?_
    refine (same_noteVirtual _ _ handler).bind fun _ _ => ?_
    exact (hc _ _).bind fun _ _ => .pure .intro

/-- A reference is deleted alike. -/
theorem delete (hc : SameCaller s c c') (ref : Reference) :
    Same s (Dispatch.delete c ref) (Dispatch.delete c' ref) := by
  unfold Dispatch.delete
  split
  · exact .fail _
  · split
    · split
      · exact .pure .intro
      · refine (same_note (.bind (.text _) fun _ => .pure _)).bind fun _ _ => ?_
        exact .of_unset fun _ _ => Pairing.steady_remove _ _
    · refine (same_noteOrdinary _ _).bind fun _ _ => ?_
      refine (hc.ordinaryDelete _ _).bind fun deleted _ => ?_
      split
      · exact .fail _
      · exact .pure .intro
    · refine .andThen (fun _ _ => Pairing.steady_handler _ _) fun handler => ?_
      refine (same_noteVirtual _ _ handler).bind fun _ _ => ?_
      exact (hc _ _).bind fun _ _ => .pure .intro

/-! ## Attributes of the host's own -/

/-- The function behind an attribute is called alike. -/
theorem callPart (hc : SameCaller s c c') (part : ClassPart) (arguments : List Value) :
    Same s (Protocol.callPart c part arguments) (Protocol.callPart c' part arguments) := by
  refine .look .heap fun h => ?_
  split
  · exact hc _ _
  · exact .failNative _

/-- An attribute of the host's own is read alike. -/
theorem protocolRead (hc : SameCaller s c c') (v : Value) (name : String) :
    Same s (Protocol.read .none c v name) (Protocol.read .unset c' v name) := by
  refine .look .heap fun h => ?_
  split
  · exact hc.callPart _ _
  · exact .of_unset fun _ _ => Pairing.paired_readField v name

/-- It is set alike, unless it is the strictness of the evaluator. -/
theorem protocolWrite (hc : SameCaller s c c') (v : Value) (name : String) (new : Value) :
    Same s (Protocol.write .none c v name new) (Protocol.write .unset c' v name new) := by
  refine .look .heap fun h => ?_
  split
  · exact (hc.callPart _ _).bind fun _ _ => .pure .intro
  · exact .of_unset fun _ _ => Pairing.paired_writeField v name new

/-- It is deleted alike. -/
theorem protocolErase (hc : SameCaller s c c') (v : Value) (name : String) :
    Same s (Protocol.erase .none c v name) (Protocol.erase .unset c' v name) := by
  refine .look .heap fun h => ?_
  split
  · exact (hc.callPart _ _).bind fun _ _ => .pure .intro
  · exact .of_unset fun _ _ => Pairing.paired_eraseField v name

/-- An access to it is served alike. -/
theorem serve (hc : SameCaller s c c') (name : String) (kind : AccessKind)
    (arguments : List Value) :
    Same s (Protocol.serve .none c name kind arguments)
      (Protocol.serve .unset c' name kind arguments) := by
  unfold Protocol.serve
  split
  · exact (hc.protocolRead _ _).catching _ _
  · exact SameUnder.catching ((hc.protocolWrite _ _ _).bind fun _ _ => .pure .intro) _ _
  · refine SameUnder.bind (SameUnder.catching
      ((hc.protocolRead _ _).bind fun _ _ => .pure .intro) _ _) fun there _ => ?_
    split
    · exact SameUnder.catching ((hc.protocolErase _ _).bind fun _ _ => .pure .intro) _ _
    · exact .pure .intro
  · exact .failNative _

/-- A method makes its calls alike. -/
theorem method (hc : SameCaller s c c') (m : Method) (arguments : List Value) :
    Same s (Invoke.method .none c m arguments) (Invoke.method .unset c' m arguments) := by
  cases m with
  | store receiver operation => exact .of_unset fun _ _ => Pairing.paired_callBound _ _ _
  | part receiver part => exact hc.callPart _ _
  | library receiver function => exact .of_unset fun _ _ => Pairing.steady_library _ _

end SameCaller

/-! ## References -/

/-- How strict a reference should be that is built while programs with the given flags are active:
as strict as the runner was at the outset, or strict if one of the programs is. -/
def inForce (ambient : Bool) (active : List Bool) : Bool := ambient || active.any id

/-- Without an active program, the strictness at the outset is in force. -/
theorem inForce_nil (ambient : Bool) : inForce ambient [] = ambient := Bool.or_false ambient

/-- A program that becomes active adds its own strictness to what is in force. -/
theorem inForce_cons (ambient strict : Bool) (active : List Bool) :
    inForce ambient (strict :: active) = (inForce ambient active || strict) := by
  unfold inForce
  rw [List.any_cons, id, Bool.or_assoc, Bool.or_comm strict]

/-- The watcher that keeps silent as long as every reference is as strict as it should be. -/
def Watcher.check (ambient : Bool) (complain : Watcher) : Watcher := fun active ref =>
  if ref.strict = inForce ambient active then pure () else complain active ref

namespace Watched

open Run (Same SameUnder)

variable {s : Bool}

/-- Two actions that build the same reference, which is as strict as the machine. -/
abbrev SameReference (s : Bool) (x y : Run Reference) : Prop :=
  SameUnder s (fun ref => ref.strict = s) x y

/-- A binding is referred to as strictly as the machine is. -/
theorem sameReference_binding (env name : Value) :
    SameReference s (Eval.bindingReference env name) (Eval.bindingReference env name) := by
  refine .get ?_
  rintro m rfl
  exact .andThen (fun _ _ => Pairing.steady_owner env name) fun owner => .pure rfl

/-- So is a property. -/
theorem sameReference_property (base name this : Value) (isSuper : Bool) :
    SameReference s (Reference.property base name s this isSuper)
      (Reference.property base name s this isSuper) := by
  unfold Reference.property
  split
  · exact .fail _
  · exact .look .heap fun h => .pure rfl

/-- A property is referred to as strictly as the machine is when its base and name are known. -/
theorem sameReference_propertyNow (base name this : Value) (isSuper : Bool) :
    SameReference s (do Reference.property base name (← get).strict this isSuper)
      (do Reference.property base name (← get).strict this isSuper) := by
  refine .get ?_
  rintro m rfl
  exact sameReference_property base name this isSuper

variable {x y x' y' : Run Value}

/-- The reference of a member. -/
theorem sameReference_member (hobj : Same s x y) (name : Value) :
    SameReference s (Eval.memberReference x name) (Eval.memberReference y name) := by
  refine hobj.bind fun v _ => ?_
  refine .andThen (fun _ _ => Pairing.steady_toObject v) fun base => ?_
  exact sameReference_propertyNow base name .undefined false

/-- The reference of an indexed access. -/
theorem sameReference_index (hobj : Same s x y) (hkey : Same s x' y') :
    SameReference s (Eval.indexReference x x') (Eval.indexReference y y') := by
  refine hobj.bind fun v _ => ?_
  refine .andThen (fun _ _ => Pairing.steady_toObject v) fun base => ?_
  refine hkey.bind fun k _ => ?_
  refine .andThen (fun _ _ => Pairing.steady_propertyKey k) fun key => ?_
  exact sameReference_propertyNow base key .undefined false

/-- The reference of a chain. -/
theorem sameReference_chain (hobj : Same s x y) (hresolver : Same s x' y') :
    SameReference s (Eval.chainReference x x') (Eval.chainReference y y') := by
  refine hobj.bind fun base _ => ?_
  refine hresolver.bind fun resolver _ => ?_
  refine .get ?_
  rintro m rfl
  refine .andThen (fun _ _ => Pairing.steady_toObject base) fun base => ?_
  refine (sameReference_property base resolver .undefined false).bind fun ref href => ?_
  split
  · refine .look (.inspect resolver) fun shown => ?_
    exact (SameCaller.same_note (.pure _)).bind fun _ _ => .pure href
  · exact .pure href

variable {ambient : Bool} {complain : Watcher} {active : List Bool}

/-- The watcher has no complaint about a reference that is as strict as the machine. -/
theorem sameReference_told {x y : Run Reference} (hxy : SameReference (inForce ambient active) x y) :
    SameReference (inForce ambient active) (told (Watcher.check ambient complain active) x) y := by
  rw [← bind_pure y]
  refine hxy.bind fun ref href => ?_
  rw [Watcher.check, if_pos href, pure_bind]
  exact .pure href

/-- The reference of a super member, for which `this` is read on the way. -/
theorem sameReference_super {c c' : Caller} (hc : SameCaller (inForce ambient active) c c')
    (env name : Value) (loc : Option Location) :
    SameReference (inForce ambient active)
      (superReference (Watcher.check ambient complain active) c env name loc)
      (Eval.superReference c' env name loc) := by
  rw [Eval.superReference, ← bind_assoc]
  refine (sameReference_told (sameReference_binding env (.str "this"))).bind fun ref _ => ?_
  refine (hc.read ref).bind fun this _ => .look .heap fun h => ?_
  cases h.objectOf? this with
  | none => exact .fail _
  | some o =>
    cases o with
    | record kind slots parent frozen =>
      cases parent with
      | none => exact .fail _
      | some home => exact sameReference_told (sameReference_propertyNow (.object home) name this true)
    | _ => exact .fail _

/-- A reference is read as its node says. -/
theorem same_readAt {c c' : Caller} (hc : SameCaller s c c') (n : Node) {x y : Run Reference}
    (hxy : SameReference s x y) : Same s (x >>= Eval.readAt c n) (y >>= Eval.readAt c' n) :=
  hxy.bind fun ref _ => .andThen (fun _ _ => Pairing.steady_visit n) fun _ => hc.read ref

/-! ## Nodes -/

/-- Calls that are made under watch do what calls do, whatever programs are active. -/
def SameScoped (ambient : Bool) (call : ScopedCaller) (c : Caller) : Prop :=
  ∀ active, SameCaller (inForce ambient active) (call active) c

variable {call : ScopedCaller} {c : Caller}

mutual

/-- A node comes to the same value under watch. A program in it is active for its statements alone.
-/
theorem same_eval (hc : SameScoped ambient call c) (env : Value) :
    ∀ (n : Node) (active : List Bool), Same (inForce ambient active)
      (eval (Watcher.check ambient complain) call env active n) (Eval.eval c env n)
  | .value v, active => by
    rw [eval, Eval.eval]
    exact .pure .intro
  | .list items, active => by
    rw [eval, Eval.eval]
    refine .andThen (fun _ _ => Pairing.steady_settleAll items _) fun settled => ?_
    refine .andThen (fun _ _ => Pairing.steady_mapM (fun n _ => Pairing.steady_ofNode n) _) ?_
    exact fun _ => .of_unset fun _ _ => Pairing.steady_alloc rfl
  | .literal v loc, active => by
    rw [eval, Eval.eval]
    exact .andThen (fun _ _ => Pairing.steady_visit _) fun _ => .pure .intro
  | .identifier name loc, active => by
    rw [eval, Eval.eval]
    refine .andThen (fun _ _ => Pairing.steady_visit _) fun _ => ?_
    exact same_readAt (hc active) _ (sameReference_told (sameReference_binding env name))
  | .member obj name loc, active => by
    rw [eval, Eval.eval]
    refine .andThen (fun _ _ => Pairing.steady_visit _) fun _ => ?_
    have hobj := same_eval hc env obj active
    exact same_readAt (hc active) _ (sameReference_told (sameReference_member hobj name))
  | .index obj key loc, active => by
    rw [eval, Eval.eval]
    refine .andThen (fun _ _ => Pairing.steady_visit _) fun _ => ?_
    have hobj := same_eval hc env obj active
    have hkey := same_eval hc env key active
    exact same_readAt (hc active) _ (sameReference_told (sameReference_index hobj hkey))
  | .chain obj resolver loc, active => by
    rw [eval, Eval.eval]
    refine .andThen (fun _ _ => Pairing.steady_visit _) fun _ => ?_
    have hobj := same_eval hc env obj active
    have hresolver := same_eval hc env resolver active
    exact same_readAt (hc active) _ (sameReference_told (sameReference_chain hobj hresolver))
  | .superMember name loc, active => by
    rw [eval, Eval.eval]
    refine .andThen (fun _ _ => Pairing.steady_visit _) fun _ => ?_
    exact same_readAt (hc active) _ (sameReference_super (hc active) env name loc)
  | .assign target v loc, active => by
    rw [eval, Eval.eval]
    refine .andThen (fun _ _ => Pairing.steady_visit _) fun _ => ?_
    split
    · refine (sameReference_reference hc env target active).bind fun ref _ => ?_
      refine (same_eval hc env v active).bind fun new _ => ?_
      refine .andThen (fun _ _ => Pairing.steady_visit _) fun _ => ?_
      exact ((hc active).write ref new).bind fun _ _ => .pure .intro
    · exact .fail _
  | .delete target loc, active => by
    unfold eval Eval.eval
    refine .andThen (fun _ _ => Pairing.steady_visit _) fun _ => ?_
    have href := sameReference_reference hc env target active
    have hvalue := same_eval hc env target active
    cases target with
    | superMember name superLoc => exact .fail _
    | _ =>
      dsimp only
      split
      · refine href.bind fun ref _ => ?_
        refine .andThen (fun _ _ => Pairing.steady_visit _) fun _ => ?_
        exact ((hc active).delete ref).bind fun _ _ => .pure .intro
      · exact hvalue.bind fun _ _ => .pure .intro
  | .call callee args loc, active => by
    rw [eval, Eval.eval]
    refine .andThen (fun _ _ => Pairing.steady_visit _) fun _ => ?_
    refine (same_eval hc env callee active).bind fun f _ => ?_
    refine (same_evalAll hc env args active).bind fun arguments _ => .look .heap fun h => ?_
    split
    · refine (SameCaller.same_note (.bind (.text _) fun _ => .pure _)).bind fun _ _ => ?_
      exact hc active f arguments
    · exact .fail _
  | .objectLiteral entries loc, active => by
    rw [eval, Eval.eval]
    refine .andThen (fun _ _ => Pairing.steady_visit _) fun _ => ?_
    refine .andThen (fun _ _ => Pairing.steady_alloc rfl) fun record => ?_
    exact (same_evalEntries hc env record entries active).bind fun _ _ => .pure .intro
  | .program body strict loc, active => by
    rw [eval, Eval.eval]
    refine .andThen (fun _ _ => Pairing.steady_visit _) fun _ => ?_
    -- The body runs with one program more on the stack, and that is what the machine's own flag
    -- says.
    have hbody := same_evalBody hc env .undefined body (strict :: active)
    exact .withStrict (inForce_cons ambient strict active ▸ hbody)
  | .other kind loc, active => by
    rw [eval, Eval.eval]
    exact .andThen (fun _ _ => Pairing.steady_visit _) fun _ => .fail _

/-- A node denotes the same reference under watch, which is as strict as the machine. -/
theorem sameReference_reference (hc : SameScoped ambient call c) (env : Value) :
    ∀ (n : Node) (active : List Bool), SameReference (inForce ambient active)
      (reference (Watcher.check ambient complain) call env active n) (Eval.reference c env n)
  | .identifier name _, active => by
    rw [reference, Eval.reference]
    exact sameReference_told (sameReference_binding env name)
  | .member obj name _, active => by
    rw [reference, Eval.reference]
    exact sameReference_told (sameReference_member (same_eval hc env obj active) name)
  | .index obj key _, active => by
    rw [reference, Eval.reference]
    have hobj := same_eval hc env obj active
    have hkey := same_eval hc env key active
    exact sameReference_told (sameReference_index hobj hkey)
  | .chain obj resolver _, active => by
    rw [reference, Eval.reference]
    have hobj := same_eval hc env obj active
    have hresolver := same_eval hc env resolver active
    exact sameReference_told (sameReference_chain hobj hresolver)
  | .superMember name loc, active => by
    rw [reference, Eval.reference]
    exact sameReference_super (hc active) env name loc
  | .literal .., _ | .assign .., _ | .delete .., _ | .call .., _ | .objectLiteral .., _
  | .program .., _ | .other .., _ | .value .., _ | .list .., _ => .fail _

/-- Nodes in a row are evaluated the same under the watcher. -/
theorem same_evalAll (hc : SameScoped ambient call c) (env : Value) :
    ∀ (ns : List Node) (active : List Bool), Same (inForce ambient active)
      (evalAll (Watcher.check ambient complain) call env active ns) (Eval.evalAll c env ns)
  | [], active => by
    rw [evalAll, Eval.evalAll]
    exact .pure .intro
  | n :: ns, active => by
    rw [evalAll, Eval.evalAll]
    refine (same_eval hc env n active).bind fun v _ => ?_
    exact (same_evalAll hc env ns active).bind fun _ _ => .pure .intro

/-- The entries of an object literal are evaluated the same under the watcher. -/
theorem same_evalEntries (hc : SameScoped ambient call c) (env record : Value) :
    ∀ (entries : List (Value × Node)) (active : List Bool), Same (inForce ambient active)
      (evalEntries (Watcher.check ambient complain) call env active record entries)
      (Eval.evalEntries c env record entries)
  | [], active => by
    rw [evalEntries, Eval.evalEntries]
    exact .pure .intro
  | (name, n) :: rest, active => by
    rw [evalEntries, Eval.evalEntries]
    refine (same_eval hc env n active).bind fun v _ => ?_
    refine .andThen (fun _ _ => Pairing.steady_propertyKey name) fun key => ?_
    refine .look (.keyOf key) fun k => ?_
    cases record with
    | object id =>
      refine (SameCaller.same_writeOwn id k key v).bind fun _ _ => ?_
      exact same_evalEntries hc env (.object id) rest active
    | _ => exact same_evalEntries hc env _ rest active

/-- Statements are evaluated the same under the watcher. -/
theorem same_evalBody (hc : SameScoped ambient call c) (env last : Value) :
    ∀ (ns : List Node) (active : List Bool), Same (inForce ambient active)
      (evalBody (Watcher.check ambient complain) call env active last ns)
      (Eval.evalBody c env last ns)
  | [], active => by
    rw [evalBody, Eval.evalBody]
    exact .pure .intro
  | n :: ns, active => by
    rw [evalBody, Eval.evalBody]
    exact (same_eval hc env n active).bind fun v _ => same_evalBody hc env v ns active

end

/-- A program comes to the same value under watch. -/
theorem same_run (hc : SameScoped ambient call c) (env : Value) (active : List Bool) (n : Node) :
    Same (inForce ambient active) (run (Watcher.check ambient complain) call env active n)
      (Eval.run c env n) := by
  cases n with
  | program body strict loc =>
    have hbody : Same (inForce ambient (strict :: active))
        (evalBody (Watcher.check ambient complain) call env (strict :: active) .undefined body)
        (Eval.evalBody c env .undefined body) :=
      same_evalBody hc env .undefined body (strict :: active)
    exact .withStrict (inForce_cons ambient strict active ▸ hbody)
  | _ => exact same_eval hc env _ active

/-! ## Calls -/

/-- A function written in the language comes to the same value under watch. -/
theorem same_script (hc : SameScoped ambient call c) (active : List Bool) (params : List String)
    (body : Value) (arguments : List Value) :
    Same (inForce ambient active)
      (script (Watcher.check ambient complain) call active params body arguments)
      (Invoke.script c params body arguments) := by
  refine .get fun m _ => ?_
  refine (SameUnder.alloc _).bind fun env _ => ?_
  exact .andThen (fun _ _ => Pairing.steady_programOf body) fun program => same_run hc env active program

/-- What a program of the host requests is done alike under watch. -/
theorem same_perform (hc : SameScoped ambient call c) (active : List Bool) (program : HostProgram) :
    Same (inForce ambient active) (perform (Watcher.check ambient complain) call active program)
      (Invoke.perform c program) := by
  have hcall := hc active
  induction program with
  | answer v => exact .pure .intro
  | raise failure => exact .fail _
  | get base key this next ih => exact (hcall.ordinaryGet base key this).bind fun v _ => ih v
  | set base key value this next ih =>
    exact (hcall.ordinarySet base key value this).bind fun b _ => ih b
  | delete base key next ih => exact (hcall.ordinaryDelete base key).bind fun b _ => ih b
  | chain base resolver strict next ih =>
    have hchain : Run.Unset (Dispatch.chain base resolver strict) (Dispatch.chain base resolver strict) :=
      fun _ _ => (Pairing.lockstep_chain _ _ strict strict).mono fun _ _ _ hr => hr.eq
    exact .andThen hchain fun ref => ih ref
  | binding env name strict next ih =>
    have hbinding : Run.Unset (Dispatch.binding env name strict) (Dispatch.binding env name strict) :=
      fun _ _ => (Pairing.lockstep_binding _ _ strict strict).mono fun _ _ _ hr => hr.eq
    exact .andThen hbinding fun ref => ih ref
  | read ref next ih => exact (hcall.read ref).bind fun v _ => ih v
  | write ref value next ih => exact (hcall.write ref value).bind fun _ _ => ih
  | remove ref next ih => exact (hcall.delete ref).bind fun b _ => ih b
  | call f arguments next ih => exact (hcall f arguments).bind fun v _ => ih v
  | scope parent next ih =>
    exact .andThen (fun _ _ => Pairing.steady_scope parent) fun env => ih env
  | run env tree next ih =>
    refine .andThen (fun _ _ => Pairing.steady_programOf tree) fun program => ?_
    exact (same_run hc env active program).bind fun v _ => ih v
  | record name arguments next ih => exact (SameUnder.record _ _).bind fun _ _ => ih
  | items v next ih => exact .andThen (fun _ _ => Pairing.steady_iterate v) fun items => ih items
  | refill list items next ih =>
    exact .andThen (fun _ _ => Pairing.steady_refill list items) fun _ => ih
  | attach target onGet onSet onDelete next ih =>
    exact .andThen (fun _ _ => Pairing.steady_attach target onGet onSet onDelete) fun _ => ih
  | detach target next ih => exact .andThen (fun _ _ => Pairing.steady_detach target) fun b => ih b
  | suspend once held body next _ ih => exact (SameUnder.alloc _).bind fun v _ => ih v

/-- What was put off is done alike under watch when it is awaited. -/
theorem same_await (hc : SameScoped ambient call c) (active : List Bool) (v : Value) :
    Same (inForce ambient active) (await (Watcher.check ambient complain) call active v)
      (Invoke.await c v) := by
  refine .look .heap fun h => ?_
  cases v with
  | object id =>
    dsimp only
    cases h.objectOf? (.object id) with
    | none => exact .failNative _
    | some o =>
      cases o with
      | awaitable once held body =>
        have hbody : Same (inForce ambient active)
            (perform (Watcher.check ambient complain) call active body) (Invoke.perform c body) :=
          same_perform hc active body
        cases once with
        | true => exact (SameUnder.put _ _).bind fun _ _ => hbody
        | false => exact hbody
      | _ => exact .failNative _
  | _ => exact .failNative _

/-- The functions that are there from the start make their calls alike. -/
theorem same_builtin (hc : SameScoped ambient call c) (active : List Bool) (f : Builtin)
    (arguments : List Value) :
    Same (inForce ambient active) (builtin (Watcher.check ambient complain) call active f arguments)
      (Invoke.builtin .unset c f arguments) := by
  have hshown : ∀ store name arguments, Same (inForce ambient active)
      (Invoke.callShown (call active) store name arguments)
      (Invoke.callShown c store name arguments) := by
    intro store name arguments
    refine .andThen (fun _ _ => Pairing.steady_attributeGet _ _) fun found => ?_
    cases found with
    | some f => exact hc active _ _
    | none => exact .failNative _
  unfold builtin
  split
  · exact same_await hc active _
  · unfold Invoke.builtin
    split
    · exact .of_unset fun _ _ => Pairing.steady_bind _ _
    · exact hshown _ _ _
    · exact (hshown _ _ _).bind fun _ _ => .pure .intro
    · exact hshown _ _ _
    · exact .alloc _
    · rename_i hawait
      exact (hawait _ rfl rfl).elim
    · exact .of_unset fun _ _ => Pairing.paired_callFunction _ _ _
    · exact .of_unset fun _ _ => Pairing.steady_library _ _
    · exact (hc active).serve _ _ _
    · exact .failNative _

/-- Whatever a function of the host does is done alike under watch. -/
theorem same_behave (hc : SameScoped ambient call c) (active : List Bool) (id : ObjectId)
    (f : HostFunction) (arguments : List Value) :
    Same (inForce ambient active)
      (behave (Watcher.check ambient complain) call active id f arguments)
      (Invoke.behave c id f arguments) := by
  have hcall := hc active
  unfold behave Invoke.behave
  cases f.behaviour with
  | arguments => exact .of_unset fun _ _ => Pairing.steady_alloc rfl
  | constant v => exact .pure .intro
  | argument i => exact .pure .intro
  | count calls => exact (SameUnder.put _ _).bind fun _ _ => .pure .intro
  | getSlot key =>
    cases arguments with
    | nil => exact .failNative _
    | cons base rest => exact hcall.ordinaryGet base key .null
  | setSlot key =>
    match arguments with
    | [] | [_] => exact .failNative _
    | base :: value :: _ => exact (hcall.ordinarySet base key value .null).bind fun _ _ => .pure .intro
  | raise failure => exact .fail _
  | script params body => exact same_script hc active params body arguments
  | program held body => exact same_perform hc active (body arguments)

/-- Every call comes to the same value under watch, however deep calls may nest. -/
theorem sameScoped_invoke (ambient : Bool) (complain : Watcher) (depth : Nat) :
    SameScoped ambient (invoke (Watcher.check ambient complain) depth)
      (guarded .unset depth) := by
  -- What is called makes its own calls at the depth below, with the flags that it was handed.
  induction depth with
  | zero => exact fun active f arguments => .failNative _
  | succ depth ih =>
    intro active f arguments
    unfold invoke guarded
    cases f with
    | type c => exact .of_unset fun _ _ => Pairing.steady_construct _ _
    | builtin b => exact same_builtin ih active b arguments
    | object id =>
      refine .look .heap fun h => ?_
      cases h.object? id with
      | none => exact .failNative _
      | some o =>
        cases o with
        | function fn =>
          have hbehave : Same (inForce ambient active)
              (behave (Watcher.check ambient complain)
                (invoke (Watcher.check ambient complain) depth) active id fn arguments)
              (Invoke.behave (guarded .unset depth) id fn arguments) :=
            same_behave ih active id fn arguments
          dsimp only
          cases fn.recorded with
          | false => exact hbehave
          | true => exact (SameUnder.record _ _).bind fun _ _ => hbehave
        | bound target receiver =>
          cases target with
          | none => exact .failNative _
          | some target =>
            cases receiver with
            | none => exact .failNative _
            | some receiver => exact ih active target (receiver :: arguments)
        | method m => exact (ih active).method m arguments
        | _ => exact .failNative _
    | _ => exact .failNative _

end Watched

/-! ## The main result -/

/-- A program that is run leaves the machine as strict as it was, whatever it does and however it
ends. -/
theorem on_run_strict (call : Caller) (env : Value) (body : List Node) (strict : Bool)
    (loc : Option Location) (m : Machine) :
    (on (Eval.run call env (.program body strict loc)) m).2.strict = m.strict := by
  rw [Eval.run, Run.on_withStrict]
  rfl

/-- Sequences of uses of a runner that come to no detour leave it as strict as it was. -/
theorem Use.strict_machines {m : Machine} {uses : List Use} (hs : Straight .unset m uses) :
    (machines m uses).strict = m.strict := by
  induction uses generalizing m with
  | nil => rfl
  | cons use rest ih =>
    have hm : (Invariant.unset m.globals).holds m := ⟨rfl, .intro⟩
    exact (ih hs.2).trans ((holds_machine (.unset m.globals) hm hs.1).2 rfl)

/-- From every state, a program leaves the machine as strict as it was. Unless a program sets the
strictness of the evaluator on the way, a program that is run in any environment builds no reference
that the watcher would complain about: each is as strict as the machine was at the outset, or strict
if a program is that is active when it is built. The machine is as strict afterwards as it was
before, and so it is after any number of programs that a runner runs and reports on. -/
theorem strictness_is_scoped (depth : Nat) (env : Value) (program : Node) (complain : Watcher)
    (m : Machine) :
    (∀ body strict loc,
      (on (Eval.run (invoke depth) env (.program body strict loc)) m).2.strict = m.strict)
    ∧ (Run.Detoured .unset (on (Eval.run (guarded .unset depth) env program) m)
      ∨ on (Watched.run (Watcher.check m.strict complain)
            (Watched.invoke (Watcher.check m.strict complain) depth) env [] program) m
          = on (Eval.run (invoke depth) env program) m
        ∧ (on (Eval.run (invoke depth) env program) m).2.strict = m.strict)
    ∧ ∀ uses, Use.Straight .unset m uses → (Use.machines m uses).strict = m.strict := by
  refine ⟨fun body strict loc => on_run_strict _ env body strict loc m, ?_,
    fun uses hs => Use.strict_machines hs⟩
  have hcall := Watched.sameScoped_invoke m.strict complain depth
  have hreal : Run.Unset (Eval.run (guarded .unset depth) env program)
      (Eval.run (invoke depth) env program) := fun globals _ =>
    Pairing.paired_run ((Pairing.level (.unset globals)).callers_guarded depth) env program
  -- The watched run does what the guarded one does, and so does the run itself.
  rcases Watched.same_run hcall env [] program m (inForce_nil m.strict).symm with
    hp | ⟨hsame, hstrict, -⟩
  · exact .inl hp
  rcases Run.SameUnder.of_unset hreal m rfl with hp | ⟨heq, -, -⟩
  · exact .inl hp
  · rw [heq]
    exact .inr ⟨hsame, hstrict.trans (inForce_nil m.strict)⟩

/-- A watcher that leaves the flags of the active programs in the log, under the strictness of the
reference. -/
def Watcher.logging : Watcher := fun active ref =>
  Invoke.record (.bool ref.strict) (active.map .bool)

/-- The strictness of each reference that is built in a run of a program in the global environment,
with the flags of the programs that are active then. -/
def Watcher.told (m : Machine) (program : Node) : List (Value × List Value) :=
  (on (Watched.run Watcher.logging (Watched.invoke Watcher.logging 1) (.object m.globals) []
    program) m).2.log.map fun call => (call.name, call.arguments)

/-- The watcher is told of the reference in a strict program, and of the one that follows it. -/
example : Watcher.told
      { Machine.blank with heap := Machine.blank.heap.put 3 (.environment
        (Slots.put (Slots.put .empty (.str "undefined") (.str "undefined") .undefined)
          (.str "x") (.str "x") .null) none) }
      (.program [.program [.assign (.identifier (.str "undefined") none) (.literal .null none) none]
        true none, .identifier (.str "x") none] false none)
    = [(.bool true, [.bool true, .bool false]), (.bool false, [.bool false])] := by
  decide +kernel

/-- The program that goes from the function of a library to the evaluator, sets its strictness, and
assigns `1` to an identifier that is bound nowhere. -/
def setStrictness : Node :=
  .program [.assign (.member (.member (.member (.value (.object 6)) (.str "__self__") none)
      (.str "evaluator") none) (.str "strict") none) (.literal (.bool true) none) none,
    .assign (.identifier (.str "fresh") none) (.literal (.int 1) none) none] false none

/-- In a run of that program the evaluator builds a strict reference, although neither the machine
nor any program is strict, and the assignment fails. -/
theorem set_strictness_makes_strict_reference :
    Machine.withLibrary.strict = false
    ∧ (∃ told ∈ Watcher.told Machine.withLibrary setStrictness,
        told.1 = .bool true ∧ .bool true ∉ told.2)
    ∧ Stop.kindOf? (on (Eval.run (invoke 1) (.object Machine.withLibrary.globals) setStrictness)
        Machine.withLibrary).1 = some .unresolvableReference := by
  decide +kernel

end ChainScript
