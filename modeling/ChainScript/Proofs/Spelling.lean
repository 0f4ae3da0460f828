import ChainScript.Proofs.CallOrder
import ChainScript.Proofs.Exchange
import ChainScript.Proofs.LockstepCall
import ChainScript.Proofs.Scope
import ChainScript.Runner

/-!
# Three spellings of an access

A slot that a primitive names can be written `o.n`, `o[k]` or `o :: k`. They come to the same
reference, and `spellings_agree` says that they may be exchanged in every program: a chain for an
index wherever the base is no null and the key is primitive, and a member for an index of a literal
without condition. An index never comes to a resolver, since it refuses a key that is not primitive.

A chain notes in the trace that its resolver is primitive, and so it puts the key into words before
the access does. Where that fails, the access would fail in the same way as soon as it is carried
out. A read or a delete is carried out at once, but an assignment evaluates its value in between.
-/

namespace ChainScript

open Run (on Meets)

/-- The fault of an access to a slot that cannot be noted: its key cannot be put into words, or it
is not known whether accesses are traced. -/
def Machine.unnotable? (m : Machine) (key : Value) : Option Fault :=
  match m.heap.inspect key with
  | .error failure => some (.unprintable failure)
  | .ok _ => if m.traces?.isSome then none else some (.badFlag "VPROP_DEBUG" m.debugVariable)

/-- Machines that are alike can note the same accesses. -/
theorem Machine.Like.unnotable?_eq {m m' : Machine} (hm : m.Like m') (key : Value) :
    m'.unnotable? key = m.unnotable? key := by
  obtain ⟨_, _, rfl⟩ := hm
  rfl

/-- Where the access of a key can be noted, what goes on from the note goes on from a machine with
one more line in the trace, if any. -/
theorem Run.on_note_key {β : Type} (key : Value) (words : String → List String) (f : Unit → Run β)
    (m : Machine) :
    let x := do
      let shown ← Run.inspect key
      Run.note (pure (words shown))
      f ()
    (∃ fault, m.unnotable? key = some fault ∧ on x m = (.error (.fault fault), m))
      ∨ m.unnotable? key = none ∧ ∃ m', m.Like m' ∧ on x m = on (f ()) m' := by
  intro x
  have hinspect : on (Run.inspect key) m = (ofPrintedResult (m.heap.inspect key), m) := by
    rw [Run.inspect, on_bind, on_heap]
    exact on_ofPrinted _ m
  unfold Machine.unnotable?
  cases hshown : m.heap.inspect key with
  | error failure =>
    rw [hshown] at hinspect
    exact .inl ⟨_, rfl, on_bind_error hinspect⟩
  | ok shown =>
    rw [hshown] at hinspect
    have hx : on x m = _ := (on_bind_ok hinspect).trans (on_note_bind (on_pure (words shown) m) _)
    rw [hx]
    cases htraces : m.traces?.isSome with
    | true =>
      obtain ⟨trace, htrace⟩ := m.exists_trace_noted (words shown)
      exact .inr ⟨rfl, m.noted (words shown), ⟨m.current, trace, htrace⟩, rfl⟩
    | false => exact .inl ⟨_, rfl, rfl⟩

/-- The reference of a slot of a base. -/
def Reference.slot (base key : Value) (strict : Bool) : Reference :=
  ⟨base, .ordinary key, base, strict, true, false⟩

section

variable {base key : Value} (hbase : base.isNullish = false)
include hbase

/-- A base that is neither null nor undefined stands as it is. -/
theorem Ordinary.toObject_eq : toObject base = pure base := by
  rw [toObject, hbase]
  rfl

omit hbase in
/-- A primitive key stands as it is. -/
theorem Ordinary.on_propertyKey {m : Machine} (hkey : m.heap.isPrimitive key = true) :
    on (propertyKey key) m = (.ok key, m) := by
  rw [propertyKey, Run.on_bind_ok (Run.on_heap m), if_pos hkey]
  rfl

/-- The reference to a slot under a primitive key is made. -/
theorem Reference.on_property {m : Machine} (hkey : m.heap.isPrimitive key = true) (strict : Bool) :
    on (property base key strict .undefined false) m = (.ok (.slot base key strict), m) := by
  rw [property, hbase]
  refine (Run.on_bind_ok (Run.on_heap m)).trans ?_
  simp only [hkey]
  rfl

/-- A chain with a primitive denotes the slot, on a machine like the one before. Otherwise no access
of the slot can be noted, and it ends with that fault. -/
theorem Dispatch.on_chain_primitive {m : Machine} (hkey : m.heap.isPrimitive key = true)
    (strict : Bool) :
    (∃ fault, m.unnotable? key = some fault ∧ on (chain base key strict) m = (.error (.fault fault), m))
      ∨ m.unnotable? key = none
        ∧ ∃ m', m.Like m' ∧ on (chain base key strict) m = (.ok (.slot base key strict), m') := by
  have hchain : on (chain base key strict) m = on (do
      let shown ← Run.inspect key
      Run.note (pure ["construct", "primitive resolver", shown, "-> ordinary"])
      return .slot base key strict) m := by
    rw [chain, Ordinary.toObject_eq hbase, pure_bind, Run.on_bind_ok (Reference.on_property hbase hkey _)]
    rfl
  rw [hchain]
  exact Run.on_note_key key _ (fun _ => pure (Reference.slot base key strict)) m

end

section

variable {key : Value} {fault : Fault} {m : Machine} (hfault : m.unnotable? key = some fault)
  (call : Caller) (base : Value) (strict : Bool)
include hfault

namespace Dispatch

/-- What begins with a note ends with the fault of an access that cannot be noted. -/
theorem on_noteOrdinary_unnotable {β : Type} (word : String) (f : Unit → Run β) :
    on (noteOrdinary word key >>= f) m = (.error (.fault fault), m) := by
  have hnote := Run.on_note_key key (fun shown => [word, "ordinary", shown]) f m
  rw [noteOrdinary, bind_assoc]
  obtain ⟨fault', hfault', hx⟩ | ⟨hnone, -⟩ := hnote
  · rw [hfault] at hfault'
    cases hfault'
    exact hx
  · rw [hfault] at hnone
    cases hnone

/-- Reading ends with the fault of an access that cannot be traced. -/
theorem on_read_unnotable : on (read call (.slot base key strict)) m = (.error (.fault fault), m) :=
  on_noteOrdinary_unnotable hfault "read" _

/-- So does deleting. -/
theorem on_delete_unnotable :
    on (delete call (.slot base key strict)) m = (.error (.fault fault), m) :=
  on_noteOrdinary_unnotable hfault "delete" _

end Dispatch

end

/-! ## A chain and an index -/

/-- On the machine, the base comes to no null if it comes to a value, and after it the key to a
primitive. Where the place waits to be assigned to, the access can also be noted. -/
def Spells (obj key : Node) (awaited : Bool) (call : Caller) (env : Value) (m : Machine) : Prop :=
  (Eval.eval call env obj).Ensures m fun base m₁ => base.isNullish = false
    ∧ (Eval.eval call env key).Ensures m₁ fun name m₂ => m₂.heap.isPrimitive name = true
      ∧ (awaited = true → m₂.unnotable? name = none)

namespace Spells

variable {obj key : Node} {awaited : Bool} {call call' : Caller} {env : Value} {m : Machine}

/-- What is spelled so is spelled so on every machine that the veil leaves the same. -/
theorem alike {V : Veil} (hcall : V.Callers call call') {k : Marks} (hk : V.same m.marks k)
    (hs : Spells obj key awaited call env m) : Spells obj key awaited call' env (m.marked k) := by
  refine Run.Ensures.alike (Veil.alike_eval hcall env obj) (fun hk₁ hbase => ⟨hbase.1, ?_⟩) hk hs
  exact Run.Ensures.alike (Veil.alike_eval hcall env key) (fun _ hkey => hkey) hk₁ hbase.2

variable (hcall : Veil.butLog.Callers call call)
include hcall

/-- Both come to the reference of the slot, and go on from it. The chain alone may end before, with
the fault that the access of the slot ends with. -/
theorem meets {α : Type} (hs : Spells obj key awaited call env m) {f g : Reference → Run α}
    (hfg : ∀ ref, Veil.butLog.Alike (f ref) (g ref))
    (hfails : awaited = false → ∀ base name strict m' fault, m'.unnotable? name = some fault →
      ∃ m'', m'.Like m'' ∧ on (g (.slot base name strict)) m' = (.error (.fault fault), m'')) :
    Meets m (Eval.chainReference (Eval.eval call env obj) (Eval.eval call env key) >>= f)
      (Eval.indexReference (Eval.eval call env obj) (Eval.eval call env key) >>= g) := by
  simp only [Eval.chainReference, Eval.indexReference, bind_assoc]
  refine .after (Veil.alike_eval hcall env obj) fun base m₁ hbase => ?_
  obtain ⟨hbase, hs⟩ := hs base m₁ hbase
  rw [Ordinary.toObject_eq hbase, pure_bind]
  refine .after (Veil.alike_eval hcall env key) fun name m₂ hname => ?_
  obtain ⟨hname, hawaited⟩ := hs name m₂ hname
  intro m₃ m₄ hm₃ hm₄
  have hname₃ : m₃.heap.isPrimitive name = true := by rw [hm₃.heap_eq, hname]
  have hname₄ : m₄.heap.isPrimitive name = true := by rw [hm₄.heap_eq, hname]
  have hunnotable := hm₃.unnotable?_eq name
  -- The index comes to the slot without a note.
  rw [Run.on_bind_ok (Ordinary.on_propertyKey hname₄), Run.on_bind_ok (Run.on_get m₄),
    Run.on_bind_ok (Reference.on_property hbase hname₄ _), Run.on_bind_ok (Run.on_get m₃),
    hm₄.strict_eq, hm₃.strict_eq]
  obtain ⟨fault, hfault, hchain⟩ | ⟨-, m₅, hm₅, hchain⟩ :=
    Dispatch.on_chain_primitive hbase hname₃ m₂.strict
  · rw [Run.on_bind_error hchain]
    rw [hunnotable] at hfault
    have hprompt : awaited = false := by
      cases awaited with
      | true =>
        rw [hawaited rfl] at hfault
        cases hfault
      | false => rfl
    obtain ⟨m₅, hm₅, hg⟩ := hfails hprompt base name m₂.strict m₄ fault
      ((hm₄.unnotable?_eq name).trans hfault)
    rw [hg]
    exact .stop (.refl _) (hm₃.symm.trans (hm₄.trans hm₅))
  · rw [Run.on_bind_ok hchain]
    exact Meets.of_alike (hfg _) _ _ (hm₃.trans hm₅) hm₄

/-- The chain and the index may be exchanged. -/
theorem exchange (hs : Spells obj key awaited call env m) (l l' : Option Location) :
    Exchange call env (.chain obj key l) (.index obj key l') awaited m where
  read := by
    rw [Eval.eval, Eval.eval]
    refine .visit _ _ (hs.meets hcall (fun ref => ?_) fun _ base name strict m' fault hfault => ?_)
    · exact (Veil.butLog_visit _ _).bind fun _ => Veil.alike_read hcall ref
    · let visited : Machine := { m' with current := some (.index obj key l') }
      have hread := Dispatch.on_read_unnotable (m := visited) hfault call base strict
      exact ⟨visited, (Machine.Like.refl m').visit _, hread⟩
  deleted loc := by
    have hsuper : ∀ name loc, Node.chain obj key l ≠ .superMember name loc :=
      fun _ _ h => nomatch h
    have hsuper' : ∀ name loc, Node.index obj key l' ≠ .superMember name loc :=
      fun _ _ h => nomatch h
    rw [Eval.eval_delete_place hsuper _ rfl, Eval.eval_delete_place hsuper' _ rfl, Eval.reference,
      Eval.reference]
    refine .visit _ _ (hs.meets hcall (fun ref => ?_) fun _ base name strict m' fault hfault => ?_)
    · refine (Veil.butLog_visit _ _).bind fun _ => ?_
      exact (Veil.alike_delete hcall ref).bind fun _ => .pure _
    · let visited : Machine := { m' with current := some (.delete (.index obj key l') loc) }
      have hdelete := Dispatch.on_delete_unnotable (m := visited) hfault call base strict
      have hends : on (do return Value.bool (← Dispatch.delete call (.slot base name strict))) visited
          = (.error (.fault fault), visited) := Run.on_bind_error hdelete
      exact ⟨visited, (Machine.Like.refl m').visit _, hends⟩
  target hawaited := by
    rw [Eval.reference, Eval.reference]
    have hmeets := hs.meets hcall (fun ref => Veil.Alike.pure ref) fun hprompt => by
      rw [hawaited] at hprompt
      cases hprompt
    rw [bind_pure, bind_pure] at hmeets
    exact hmeets

end Spells

/-! ## A member and an index of a literal -/

/-- The name is still primitive when the base has been evaluated. -/
def Names (obj : Node) (name : Value) (call : Caller) (env : Value) (m : Machine) : Prop :=
  (Eval.eval call env obj).Ensures m fun _ m₁ => m₁.heap.isPrimitive name = true

namespace Names

variable {obj : Node} {name : Value} {call call' : Caller} {env : Value} {m : Machine}

/-- What is named so is named so on every machine that the veil leaves the same. -/
theorem alike {V : Veil} (hcall : V.Callers call call') {k : Marks} (hk : V.same m.marks k)
    (hs : Names obj name call env m) : Names obj name call' env (m.marked k) :=
  Run.Ensures.alike (Veil.alike_eval hcall env obj) (fun _ hname => hname) hk hs

variable (hcall : Veil.butLog.Callers call call)
include hcall

/-- Both come to the same reference. -/
theorem meets (hs : Names obj name call env m) (l : Option Location) :
    Meets m (Eval.memberReference (Eval.eval call env obj) name)
      (Eval.indexReference (Eval.eval call env obj) (Eval.eval call env (.literal name l))) := by
  refine .after (Veil.alike_eval hcall env obj) fun v m₁ hv => ?_
  refine .after (.quiet (Ordinary.quiet_toObject v)) fun base m₂ hbase => ?_
  have hname : m₂.heap.isPrimitive name = true := by
    unfold Ordinary.toObject at hbase
    split at hbase
    · cases hbase
    · cases hbase
      exact hs v m₁ hv
  rw [Eval.eval]
  simp only [bind_assoc, pure_bind]
  intro m₃ m₄ hm₃ hm₄
  let visited : Machine := { m₄ with current := some (.literal name l) }
  have hvisited : m₂.Like visited := hm₄.visit _
  have hkey : on (Ordinary.propertyKey name) visited = (.ok name, visited) :=
    Ordinary.on_propertyKey (by rw [hvisited.heap_eq, hname])
  have hindex : ∀ f : Value → Run Reference,
      on (do Run.visit (.literal name l); let k ← Ordinary.propertyKey name; f k) m₄
        = on (f name) visited := fun f => Run.on_bind_ok hkey
  rw [hindex]
  exact Meets.of_alike (Veil.alike_propertyReference base name .undefined false) _ _ hm₃ hvisited

/-- The member and the index may be exchanged. -/
theorem exchange (hs : Names obj name call env m) (l l' l'' : Option Location) (awaited : Bool) :
    Exchange call env (.member obj name l) (.index obj (.literal name l') l'') awaited m := by
  have hplace : Meets m (Eval.reference call env (.member obj name l))
      (Eval.reference call env (.index obj (.literal name l') l'')) := by
    rw [Eval.reference, Eval.reference]
    exact hs.meets hcall l'
  refine ⟨?_, fun loc => ?_, fun _ => hplace⟩
  · have hread := hplace.readAt hcall (.member obj name l) (.index obj (.literal name l') l'')
    rw [Eval.reference, Eval.reference] at hread
    rw [Eval.eval, Eval.eval]
    exact hread
  · refine .delete hcall ?_ ?_ rfl rfl hplace loc
    · exact fun _ _ h => nomatch h
    · exact fun _ _ h => nomatch h

end Names

/-! ## In every program -/

/-- Noting its calls does not make a caller look at more than the log. -/
theorem Caller.butLog_noted {call : Caller} (hcall : Veil.butLog.Callers call call) :
    Veil.butLog.Callers call.noted call.noted := by
  intro f arguments m k hk
  obtain ⟨k', -, hcalled⟩ := hcall f arguments m k hk
  have hlog : (m.marked k).log = m.log := hk
  refine ⟨⟨k'.current, m.log ++ [⟨f, arguments⟩], k'.trace⟩, ?_, ?_⟩
  · rw [on_noted]
    rfl
  · rw [on_noted, on_noted, hcalled, hlog]
    rfl

/-- Two programs do the same on the machine, evaluated as a node or run as a program: they come to
the same value or to faults that look the same, make the same calls in the same order, and leave the
same machine but for the node that is current and the trace. -/
structure Interchangeable (depth : Nat) (env : Value) (m : Machine) (n n' : Node) : Prop where
  eval : SameOutcome (on (Eval.eval (invoke depth) env n) m) (on (Eval.eval (invoke depth) env n') m)
  evalCalls : callsOf (fun call => Eval.eval call env n) (invoke depth) m
    = callsOf (fun call => Eval.eval call env n') (invoke depth) m
  run : SameOutcome (on (Eval.run (invoke depth) env n) m) (on (Eval.run (invoke depth) env n') m)
  runCalls : callsOf (fun call => Eval.run call env n) (invoke depth) m
    = callsOf (fun call => Eval.run call env n') (invoke depth) m

/-- Nodes that may be exchanged where evaluation comes to the hole are interchangeable in the
program, if what allows it does not depend on the log. -/
theorem Context.interchangeable {c : Context} {n n' : Node} (hn : n.isReference = true)
    (hn' : n'.isReference = true) {P : Caller → Value → Machine → Prop}
    (hexchange : ∀ {call env m}, Veil.butLog.Callers call call → P call env m →
      Exchange call env n n' c.assigns m)
    (halike : ∀ {call call' env m k}, Veil.ofLog.Callers call call' → Veil.ofLog.same m.marks k →
      P call env m → P call' env (m.marked k))
    {depth : Nat} {env : Value} {m : Machine}
    (hc : c.AtHole (invoke depth) env (P (invoke depth) env) m) :
    Interchangeable depth env m (c.fill n) (c.fill n') := by
  have hcall := Veil.callers_invoke Veil.butLog depth
  have hnoted := Caller.butLog_noted hcall
  have hcallers := Caller.callers_noted (Veil.callers_invoke Veil.ofLog depth)
  have hhole : c.AtHole (invoke depth) env (Exchange (invoke depth) env n n' c.assigns) m :=
    fun a m' hm' => hexchange hcall (hc a m' hm')
  -- The calls are those that are noted on a machine with an empty log.
  have hlogging : c.AtHole (invoke depth).noted env (Exchange (invoke depth).noted env n n' c.assigns)
      (m.logging []) := by
    have hsame : Veil.ofLog.same m.marks ⟨m.current, [], m.trace⟩ := ⟨rfl, rfl⟩
    exact fun a m' hm' => hexchange hnoted (hc.alike hcallers (halike hcallers) hsame a m' hm')
  have hlog : ∀ {x y : Run Value}, Meets (m.logging []) x y →
      (on x (m.logging [])).2.log = (on y (m.logging [])).2.log :=
    fun hxy => (hxy _ _ (.refl _) (.refl _)).like.log_eq.symm
  exact {
    eval := (meets_fill hcall hn hn' c hhole).eval m m (.refl m) (.refl m)
    evalCalls := hlog (meets_fill hnoted hn hn' c hlogging).eval
    run := meets_run hcall hn hn' c hhole m m (.refl m) (.refl m)
    runCalls := hlog (meets_run hnoted hn hn' c hlogging) }

/-- What is primitive stays so. -/
theorem Heap.Step.isPrimitive {guard : Guard} {globals : ObjectId} {h h' : Heap}
    (s : Heap.Step guard globals h h') {name : Value} (hname : h.isPrimitive name = true) :
    h'.isPrimitive name = true := by
  cases name with
  | object id =>
    unfold Heap.isPrimitive at hname ⊢
    dsimp only at hname ⊢
    split at hname
    · rename_i description ho
      obtain ⟨o, ho', rfl | hchange | ⟨-, _, _, _, hnot, -⟩⟩ := s.object? ho
      · rw [ho']
      · cases hchange with
        | kept _ field v =>
          have hkept : ∃ d, (Object.symbol description).withKept field v = .symbol d := by
            unfold Object.withKept
            split <;> simp_all
          obtain ⟨d, hd⟩ := hkept
          rw [ho', hd]
      · cases hnot
    · cases hname
  | _ => exact hname

/-- A name that is primitive when the program starts is so where evaluation comes to the hole. -/
theorem Context.names_atHole {depth : Nat} {env name : Value} {m : Machine}
    (hname : m.heap.isPrimitive name = true) (c : Context) (obj : Node) :
    c.AtHole (invoke depth) env (Names obj name (invoke depth) env) m := by
  let I := Invariant.ofHeap .none m.globals (fun h => h.isPrimitive name = true)
    fun hh s => s.isPrimitive hh
  have hcall : (Pairing.level I).Callers (invoke depth) (invoke depth) :=
    Pairing.callers_guarded (Pairing.level I) depth
  have hlead : I.Keeps (c.lead (invoke depth) env) := c.keeps_lead rfl hcall
  have hobj : I.Keeps (Eval.eval (invoke depth) env obj) :=
    .of_lockstep rfl fun h => Pairing.paired_eval hcall env obj h
  intro _ m₁ hm₁ base m₂ hm₂
  have hstart : I.holds m := ⟨rfl, hname⟩
  have hhole : I.holds m₁ := by simpa only [hm₁] using hlead m hstart
  have hend : I.holds m₂ := by simpa only [hm₂] using hobj m₁ hhole
  exact hend.2

/-! ## Indices stay ordinary -/

/-- The ways to access a place. -/
inductive Accesses (place : Node) : Node → Prop
  | read : Accesses place place
  | write (v : Node) (loc : Option Location) : Accesses place (.assign place v loc)
  | delete (loc : Option Location) : Accesses place (.delete place loc)

/-- An index never denotes a place that a resolver serves. Where its base is no null and its key
comes to what is not primitive, every access to it ends with the fault of such a key, on the machine
that the operands leave: nothing was read from the place, written there or deleted, and no value was
evaluated. -/
structure StaysOrdinary (depth : Nat) (env : Value) (obj key : Node) (loc : Option Location)
    (m : Machine) : Prop where
  ordinary : (Eval.reference (invoke depth) env (.index obj key loc)).Ensures m
    fun ref _ => ref.isVirtual = false
  refused : ∀ {base m₁ name m₂}, on (Eval.eval (invoke depth) env obj) m = (.ok base, m₁) →
    base.isNullish = false → on (Eval.eval (invoke depth) env key) m₁ = (.ok name, m₂) →
    m₂.heap.isPrimitive name = false → (Fault.keyNotPrimitive name).kind = .typeError
      ∧ ∀ n, Accesses (.index obj key loc) n → ∃ m', m₂.Like m'
        ∧ on (Eval.eval (invoke depth) env n) m = (.error (.fault (.keyNotPrimitive name)), m')

namespace StaysOrdinary

variable {call : Caller} {env : Value} {obj key : Node}

/-- An index never makes a virtual reference. -/
theorem ensures_reference (loc : Option Location) (m : Machine) :
    (Eval.reference call env (.index obj key loc)).Ensures m fun ref _ => ref.isVirtual = false := by
  rw [Eval.reference, Eval.indexReference]
  refine .bind fun v _ _ => .bind fun base _ _ => .bind fun k m₁ _ => .bind fun name m₂ hname => ?_
  refine .bind fun now m₃ hnow => ?_
  have hprimitive : m₃.heap.isPrimitive name = true := by
    cases hnow
    rw [Ordinary.propertyKey, Run.on_bind_ok (Run.on_heap m₁)] at hname
    split at hname
    · cases hname
      assumption
    · cases hname
  intro ref m₄ href
  rw [Reference.property] at href
  split at href
  · cases href
  · rw [Run.on_bind_ok (Run.on_heap m₃), hprimitive] at href
    cases href
    rfl

variable {m m₁ m₂ : Machine} {base name : Value}

/-- An index by what is not primitive is refused. -/
theorem on_reference (hbase : on (Eval.eval call env obj) m = (.ok base, m₁))
    (hnullish : base.isNullish = false) (hkey : on (Eval.eval call env key) m₁ = (.ok name, m₂))
    (hname : m₂.heap.isPrimitive name = false) (loc : Option Location) :
    on (Eval.reference call env (.index obj key loc)) m
      = (.error (.fault (.keyNotPrimitive name)), m₂) := by
  rw [Eval.reference, Eval.indexReference, Run.on_bind_ok hbase, Ordinary.toObject_eq hnullish, pure_bind,
    Run.on_bind_ok hkey]
  refine Run.on_bind_error ?_
  rw [Ordinary.propertyKey, Run.on_bind_ok (Run.on_heap m₂), hname]
  rfl

/-- Whatever is to be done with a place, it is found first. -/
theorem on_access (hcall : Veil.butLog.Callers call call) {loc : Option Location} {fault : Fault}
    (hplace : on (Eval.reference call env (.index obj key loc)) m = (.error (.fault fault), m₂))
    {n : Node} (hn : Accesses (.index obj key loc) n) :
    ∃ m', m₂.Like m' ∧ on (Eval.eval call env n) m = (.error (.fault fault), m') := by
  -- The access is visited first, which does not change what the place denotes.
  let visited : Machine := { m with current := some n }
  have hvisited : m.Like visited := (Machine.Like.refl m).visit n
  have hvisit : on (Run.visit n) m = (.ok (), visited) := rfl
  obtain ⟨m', hm', hends⟩ :=
    (Veil.alike_reference hcall env (.index obj key loc)).on_like hvisited
  rw [hplace] at hm' hends
  refine ⟨m', hm', ?_⟩
  cases hn with
  | read =>
    rw [Eval.reference] at hends
    rw [Eval.eval]
    exact (Run.on_bind_ok hvisit).trans (Run.on_bind_error hends)
  | write v l =>
    have hindex : (Node.index obj key loc).isReference = true := rfl
    rw [Eval.eval, if_pos hindex]
    exact (Run.on_bind_ok hvisit).trans (Run.on_bind_error hends)
  | delete l =>
    have hsuper : ∀ name loc', Node.index obj key loc ≠ .superMember name loc' :=
      fun _ _ h => nomatch h
    rw [Eval.eval_delete_place hsuper _ rfl]
    exact (Run.on_bind_ok hvisit).trans (Run.on_bind_error hends)

end StaysOrdinary

/-- The spellings of an access agree, and an index stays ordinary. -/
theorem spellings_agree (depth : Nat) (env : Value) (m : Machine) :
    (∀ {c : Context} {obj key : Node},
      c.AtHole (invoke depth) env (Spells obj key c.assigns (invoke depth) env) m → ∀ l l',
      Interchangeable depth env m (c.fill (.chain obj key l)) (c.fill (.index obj key l')))
    ∧ (∀ {name : Value}, m.heap.isPrimitive name = true → ∀ (c : Context) (obj : Node) l l' l'',
      Interchangeable depth env m (c.fill (.member obj name l))
        (c.fill (.index obj (.literal name l') l'')))
    ∧ ∀ (obj key : Node) l, StaysOrdinary depth env obj key l m := by
  refine ⟨fun hc l l' => ?_, fun hname c obj l l' l'' => ?_, fun obj key l => ?_⟩
  · exact Context.interchangeable rfl rfl (fun hcall hs => hs.exchange hcall l l')
      (fun hcall hk hs => hs.alike hcall hk) hc
  · exact Context.interchangeable rfl rfl (fun hcall hs => hs.exchange hcall l l' l'' c.assigns)
      (fun hcall hk hs => hs.alike hcall hk) (c.names_atHole hname obj)
  · refine ⟨StaysOrdinary.ensures_reference l m, fun hbase hnullish hkey hname => ⟨rfl, fun n hn => ?_⟩⟩
    exact StaysOrdinary.on_access (Veil.callers_invoke _ depth)
      (StaysOrdinary.on_reference hbase hnullish hkey hname l) hn

/-- A machine with a symbol that has lost its description, object 4, an empty record, object 5, and
a recorded function, object 6. -/
def withLostDescription : Machine :=
  let (_, heap) := Machine.blank.heap.alloc (.symbol none)
  let (_, heap) := heap.alloc (.record .plain .empty none false)
  { Machine.blank with heap := (heap.alloc (.function ⟨none, true, .arguments, .plain⟩)).2 }

/-- On that machine, `o :: "x" = 2` and `o["x"] = 2` may be exchanged, and so may `o.x = 2`. As a
key, the record is refused. -/
theorem named_slot_has_three_spellings :
    let env := Value.object withLostDescription.globals
    let o := Node.literal (.object 5) none
    let x := Node.literal (.str "x") none
    let c := Context.target .hole (.literal (.int 2) none) none
    c.AtHole (invoke 1) env (Spells o x c.assigns (invoke 1) env) withLostDescription
      ∧ Interchangeable 1 env withLostDescription (c.fill (.chain o x none)) (c.fill (.index o x none))
      ∧ Interchangeable 1 env withLostDescription (c.fill (.member o (.str "x") none))
        (c.fill (.index o x none))
      ∧ withLostDescription.heap.isPrimitive (.object 5) = false
      ∧ ∃ m', on (Eval.eval (invoke 1) env (.index o o none)) withLostDescription
        = (.error (.fault (.keyNotPrimitive (.object 5))), m') := by
  intro env o x c
  have hliteral : ∀ v m, on (Eval.eval (invoke 1) env (.literal v none)) m
      = (.ok v, { m with current := some (.literal v none) }) := by
    intro v m
    rw [Eval.eval]
    rfl
  have hspells : c.AtHole (invoke 1) env (Spells o x c.assigns (invoke 1) env) withLostDescription := by
    rintro _ m ⟨⟩ base m₁ hbase
    rw [hliteral] at hbase
    cases hbase
    refine ⟨rfl, fun name m₂ hname => ?_⟩
    rw [hliteral] at hname
    cases hname
    exact ⟨rfl, fun _ => rfl⟩
  obtain ⟨hchain, hmember, hordinary⟩ := spellings_agree 1 env withLostDescription
  obtain ⟨-, hrefused⟩ := (hordinary o o none).refused (hliteral _ _) rfl (hliteral _ _) rfl
  obtain ⟨m', -, hends⟩ := hrefused _ .read
  exact ⟨hspells, hchain hspells none none, hmember rfl c o none none none, rfl, m', hends⟩

/-- The symbol is primitive. Yet `o[s] = f()` calls the function before the write ends with the
fault of a key that cannot be put into words, and `o :: s = f()` ends with it before the call. -/
theorem lost_description_tells_spellings_apart :
    let env := Value.object withLostDescription.globals
    let o := Node.literal (.object 5) none
    let s := Node.literal (.object 4) none
    let c := Context.target .hole (.call (.literal (.object 6) none) [] none) none
    withLostDescription.heap.isPrimitive (.object 4) = true
      ∧ Stop.kindOf? (on (Eval.eval (invoke 1) env (c.fill (.chain o s none))) withLostDescription).1
        = some .attributeError
      ∧ ¬Interchangeable 1 env withLostDescription (c.fill (.chain o s none))
        (c.fill (.index o s none)) := by
  intro env o s c
  refine ⟨rfl, by decide +kernel, fun h => ?_⟩
  have hchain : (on (Eval.eval (invoke 1) env (c.fill (.chain o s none)))
      withLostDescription).2.log.length = 0 := by decide +kernel
  have hindex : (on (Eval.eval (invoke 1) env (c.fill (.index o s none)))
      withLostDescription).2.log.length = 1 := by decide +kernel
  rw [h.eval.like.log_eq, hchain] at hindex
  cases hindex

end ChainScript
