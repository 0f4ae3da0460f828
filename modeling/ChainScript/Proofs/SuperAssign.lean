import ChainScript.Proofs.LockstepCall
import ChainScript.Proofs.Prototype
import ChainScript.Proofs.Scope

/-!
# Assignments to members of the parent

A member of `super` is looked for from the parent of `this`, with `this` itself as the receiver. So
an assignment to it lands on `this`, whatever was run while the value was evaluated: a record stays
a record with the parent that it has. No record of the parent's chain changes, unless a setter that
was met in that chain changes it: `superAssign_keeps_ancestors`. With the laws of reads and writes
along a chain, that is how records inherit: `prototype_semantics`.
-/

namespace ChainScript

open Run (on)
open Ordinary (accessor? consulted? landing receiverOf)

namespace Heap

/-- A record stands at the place, with the given parent. -/
def Inherits (h : Heap) (id : ObjectId) (parent : Option ObjectId) : Prop :=
  ∃ kind slots frozen, h.object? id = some (.record kind slots parent frozen)

variable {h h' : Heap} {id : ObjectId} {parent : Option ObjectId}

/-- What inherits from a record is a record. -/
theorem Inherits.isRecord (hi : h.Inherits id parent) : h.isRecord (.object id) = true := by
  obtain ⟨kind, slots, frozen, ho⟩ := hi
  simp [Heap.isRecord, objectOf?, ho]

/-- No step of the heap gives a record another parent, or makes it another thing. -/
theorem Inherits.step {guard : Guard} {globals : ObjectId} (hi : h.Inherits id parent)
    (s : Step guard globals h h') : h'.Inherits id parent := by
  obtain ⟨kind, slots, frozen, ho⟩ := hi
  obtain ⟨o, ho', rfl | c | ⟨-, _, _, _, hnot, -⟩⟩ := s.object? ho
  · exact ⟨kind, slots, frozen, ho'⟩
  · cases c with
    | slots kind slots slots' parent => exact ⟨kind, slots', false, ho'⟩
    | emptied _ kind slots parent => exact ⟨kind, .empty, true, ho'⟩
    | freeze kind slots parent frozen => exact ⟨kind, slots, true, ho'⟩
    | kept o name v => exact ⟨kind, slots, frozen, ho'⟩
  · cases hnot

/-- The record and its parent stay what they are through every evaluation. -/
theorem Inherits.eval {m : Machine} {home : ObjectId} {grandparent : Option ObjectId}
    (hi : m.heap.Inherits id parent) (hhome : m.heap.Inherits home grandparent) (depth : Nat)
    (env : Value) (n : Node) :
    let m' := (on (Eval.eval (invoke depth) env n) m).2
    m'.heap.Inherits id parent ∧ m'.heap.Inherits home grandparent := by
  let I := Invariant.ofHeap .none m.globals
    (fun h => h.Inherits id parent ∧ h.Inherits home grandparent) fun hi s => ⟨hi.1.step s, hi.2.step s⟩
  have hcall : (Pairing.level I).Callers (invoke depth) (invoke depth) :=
    (Pairing.level I).callers_guarded depth
  have hstart : I.holds m := ⟨rfl, hi, hhome⟩
  exact (I.of_steady rfl (fun h => Pairing.paired_eval hcall env n h) hstart).1.2

end Heap

namespace Prototype

/-- The reference of a member of the parent of a record, with the record as the receiver. -/
def superMember (home r : ObjectId) (name : String) (strict : Bool) : Reference :=
  ⟨.object home, .ordinary (.str name), .object r, strict, true, true⟩

/-- A member of `super` denotes such a reference, for a record that has a parent. -/
theorem exists_superMember {call : Caller} {env : Value} {name : String} {loc : Option Location}
    {m m₁ : Machine} {ref : Reference}
    (href : on (Eval.superReference call env (.str name) loc) m = (.ok ref, m₁)) :
    ∃ r home strict, m₁.heap.Inherits r (some home) ∧ ref = superMember home r name strict := by
  rw [Eval.superReference, Run.on_bind, Run.on_get] at href
  dsimp only at href
  rw [Run.on_bind] at href
  rcases hbinding : on (Dispatch.binding env (.str "this") m.strict) m with ⟨e | this, mb⟩
  · rw [hbinding] at href
    cases href
  rw [hbinding] at href
  dsimp only at href
  rw [Run.on_bind] at href
  rcases hread : on (Dispatch.read call this) mb with ⟨e | v, mr⟩
  · rw [hread] at href
    cases href
  rw [hread] at href
  dsimp only at href
  rw [Run.on_bind, Run.on_heap] at href
  dsimp only at href
  split at href
  · rename_i kind slots home frozen ho
    rw [Run.on_bind, Run.on_get] at href
    cases v with
    | object r =>
      cases href
      exact ⟨r, home, _, ⟨kind, slots, frozen, ho⟩, rfl⟩
    | _ => cases ho
  · cases href

/-- A write to a member of the parent, by itself, changes no record but the receiver. -/
theorem superWrite_object? {m : Machine} {r home : ObjectId} {name : String}
    (hr : m.heap.isRecord (.object r) = true) (hhome : m.heap.isRecord (.object home) = true)
    (hsetter : ∀ g s, consulted? m.heap home (.str name) = some (g, some s) → s = .null) (call : Caller)
    (strict : Bool) (value : Value) {x : ObjectId} (hx : x ≠ r) :
    (on (Dispatch.write call (superMember home r name strict) value) m).2.heap.object? x
      = m.heap.object? x := by
  rcases Dispatch.reaches_or_fails "write" (.str name) m with ⟨m', hreach⟩ | ⟨fault, hnote, -⟩
  · obtain ⟨trace, rfl, -⟩ := hreach.noted
    have hlanding : landing m.heap home (receiverOf (.object home) (.object r)) = r := by
      simp [receiverOf, landing, hr]
    have hk : m.heap.keyOf? (.str name) = some (.str name) := rfl
    have hset := set_object?_of_ne (m := { m with trace }) hhome hk hsetter call value (.object r)
      (fun he => hx (he.trans hlanding))
    rw [hreach.on_write rfl]
    dsimp only [superMember]
    rcases hends : on (Ordinary.set call (.object home) (.str name) value (.object r))
      { m with trace } with ⟨e | _ | _, m₁⟩ <;> rw [hends] at hset <;> exact hset
  · rw [Dispatch.on_write_unnoted hnote rfl]

/-- An assignment to a member of `super` is a write through the reference that the member denotes,
after the value was evaluated. -/
theorem on_superAssign {call : Caller} {env : Value} {name : String} {l loc : Option Location}
    {n : Node} {m m₁ m₂ : Machine} {ref : Reference} {new : Value}
    (href : on (Eval.superReference call env (.str name) l)
      { m with current := some (.assign (.superMember (.str name) l) n loc) } = (.ok ref, m₁))
    (hnew : on (Eval.eval call env n) m₁ = (.ok new, m₂)) :
    on (Eval.eval call env (.assign (.superMember (.str name) l) n loc)) m = on (do
      Dispatch.write call ref new
      return new) { m₂ with current := some (.assign (.superMember (.str name) l) n loc) } := by
  rw [Eval.eval]
  refine (Run.on_bind_ok (Run.on_modify _ m)).trans ?_
  have hplace : (Node.superMember (.str name) l).isReference = true := rfl
  rw [if_pos hplace]
  have href' : on (Eval.reference call env (.superMember (.str name) l))
      { m with current := some (.assign (.superMember (.str name) l) n loc) } = (.ok ref, m₁) := by
    rw [Eval.reference]
    exact href
  rw [Run.on_bind_ok href', Run.on_bind_ok hnew]
  rfl

/-- What an assignment to a member of `super` does once the place is known and the value was
evaluated: it writes the member of the parent with the record as the receiver, and no object changes
but the record, unless a setter that is met from the parent up changes it. Nothing in the chain of
the parent is the record. -/
def SuperAssigns (call : Caller) (env : Value) (assignment : Node) (name : String)
    (m m₁ m₂ : Machine) (ref : Reference) : Prop :=
  ∃ r home strict, ref = superMember home r name strict ∧ m₁.heap.Inherits r (some home)
    ∧ ∀ grandparent, home < r → m₁.heap.Inherits home grandparent →
      r ∉ m₂.heap.chain home
        ∧ ((∀ g s, consulted? m₂.heap home (.str name) = some (g, some s) → s = .null) → ∀ x, x ≠ r →
          (on (Eval.eval call env assignment) m).2.heap.object? x = m₂.heap.object? x)

/-- An assignment to a member of the parent writes to the receiver as the parent would. -/
theorem superAssigns {depth : Nat} {env : Value} {name : String} {l loc : Option Location} {n : Node}
    {m m₁ m₂ : Machine} {ref : Reference} {new : Value}
    (href : on (Eval.superReference (invoke depth) env (.str name) l)
      { m with current := some (.assign (.superMember (.str name) l) n loc) } = (.ok ref, m₁))
    (hnew : on (Eval.eval (invoke depth) env n) m₁ = (.ok new, m₂)) :
    SuperAssigns (invoke depth) env (.assign (.superMember (.str name) l) n loc) name m m₁ m₂ ref := by
  obtain ⟨r, home, strict, hr, rfl⟩ := exists_superMember href
  refine ⟨r, home, strict, rfl, hr, fun grandparent holder hhome => ?_⟩
  have hkept := hr.eval hhome depth env n
  rw [hnew] at hkept
  obtain ⟨hr₂, hhome₂⟩ := hkept
  refine ⟨fun hmem => Nat.not_le.mpr holder (Heap.le_of_mem_chain hmem), fun hsetter x hx => ?_⟩
  rw [on_superAssign href hnew, Run.on_bind]
  have hwrite := superWrite_object?
    (m := { m₂ with current := some (.assign (.superMember (.str name) l) n loc) })
    hr₂.isRecord hhome₂.isRecord hsetter (invoke depth) strict new hx
  rcases hends : on (Dispatch.write (invoke depth) (superMember home r name strict) new)
    { m₂ with current := some (.assign (.superMember (.str name) l) n loc) } with ⟨_ | _, m₃⟩ <;>
    rw [hends] at hwrite <;> exact hwrite

end Prototype

/-- How records inherit. A read is decided by the nearest record of the chain that holds the key,
and a getter that is met is called once, on the receiver. A write changes one slot, of the receiver
if it is a record and of the base if not, or nothing if it is refused, unless it meets an accessor.
A setter is called once, with the receiver and the value, and that is all. An assignment to a member
of `super` changes no other object than `this`. A write and a delete of a slot bring to light what
the parent gives, for the record and for every heir that finds the key nowhere nearer. -/
theorem prototype_semantics :
    (∀ {m : Machine} {id : ObjectId} {key : Value}, m.heap.isRecord (.object id) = true →
      (∀ {k}, m.heap.keyOf? key = some k → Prototype.Reads m id key k ∧ Prototype.Writes m id key k)
        ∧ (m.heap.keyOf? key = none → ∀ call value this,
          on (Ordinary.get call (.object id) key this) m = (.error (.fault (.native .typeError)), m)
            ∧ on (Ordinary.set call (.object id) key value this) m
              = (.error (.fault (.native .typeError)), m)))
      ∧ (∀ {depth env name l loc n m m₁ m₂ ref new},
        on (Eval.superReference (invoke depth) env (.str name) l)
          { m with current := some (.assign (.superMember (.str name) l) n loc) } = (.ok ref, m₁) →
        on (Eval.eval (invoke depth) env n) m₁ = (.ok new, m₂) →
        Prototype.SuperAssigns (invoke depth) env (.assign (.superMember (.str name) l) n loc) name m m₁
          m₂ ref)
      ∧ ∀ {m : Machine} {r : ObjectId} {kind slots parent} {key : Value} {k : Key} {this : Value},
        m.heap.object? r = some (.record kind slots parent false) →
        (∀ p, parent = some p → p < r ∧ m.heap.isRecord (.object p) = true) →
        m.heap.keyOf? key = some k →
        (∀ x ∈ m.heap.chain r, ∀ v, m.heap.ownValue? x k = some v → accessor? m.heap v = none) →
        receiverOf (.object r) this = .object r → ∀ call value,
        ∃ m₁ m₂, on (Ordinary.set call (.object r) key value this) m = (.ok true, m₁)
          ∧ Prototype.SlotChanged m m₁ r k (some value)
          ∧ on (Ordinary.delete call (.object r) key) m₁ = (.ok true, m₂)
          ∧ Prototype.SlotChanged m₁ m₂ r k none
          ∧ Prototype.Uncovered m m₂ r parent key k :=
  ⟨fun hrecord => ⟨fun hk => ⟨Prototype.reads hrecord hk, Prototype.writes hrecord hk⟩,
      Prototype.on_unkeyed hrecord⟩,
    fun href hnew => Prototype.superAssigns href hnew,
    fun ho hparent hk hplain hthis call value =>
      Prototype.uncover ho hparent hk hplain hthis call value⟩

/-- A machine with a record that has `1` in its slot `x`, object 7, and an heir of it that has none,
object 8, which is `this`. -/
def withThis : Machine :=
  let inherited : Slots := Slots.put .empty (.str "x") (.str "x") (.int 1)
  let this : Slots := Slots.put .empty (.str "this") (.str "this") (.object 8)
  let m := withParentAndHeir inherited .empty false
  { m with heap := m.heap.put 3 (.environment this none) }

/-- The assignment `super.x = 2`. -/
def superAssignX : Node := .assign (.superMember (.str "x") none) (.literal (.int 2) none) none

/-- The chain of the heir goes from it to the record. -/
theorem withThis_chain : withThis.heap.chain 8 = [8, 7] := by decide +kernel

/-- The slot that is nearest to the heir is that of the record. -/
theorem withThis_nearest : withThis.heap.Nearest (.str "x") 8 7 (.int 1) := by
  refine ⟨⟨[8], [], withThis_chain, fun x hx => ?_⟩, rfl⟩
  rw [List.mem_singleton.mp hx]
  rfl

/-- No accessor stands under the name in the chain. -/
theorem withThis_plain : ∀ x ∈ withThis.heap.chain 8, ∀ v,
    withThis.heap.ownValue? x (.str "x") = some v → accessor? withThis.heap v = none := by
  rw [withThis_chain]
  intro x hx v hv
  simp only [List.mem_cons, List.not_mem_nil, or_false] at hx
  rcases hx with rfl | rfl
  · cases hv
  · cases hv
    rfl

/-- In the assignment, `super.x` is the slot `x` of the parent, for the heir. -/
theorem withThis_superReference :
    let m := { withThis with current := some superAssignX }
    on (Eval.superReference (invoke 1) (.object 3) (.str "x") none) m
      = (.ok (Prototype.superMember 7 8 "x" false), m) := by
  intro m
  have howner : m.heap.owner? (.str "this") 3 = some 3 := by decide +kernel
  rw [Eval.superReference, Run.on_bind_ok (Run.on_get m)]
  rw [Run.on_bind_ok (Dispatch.on_binding rfl "this" m.strict), howner]
  rw [Run.on_bind_ok (Dispatch.on_read_bound (invoke 1) "this" m.strict rfl)]
  rfl

/-- The heir reads what its parent has, and does again after it had a slot of its own. An assignment
to `super.x` leaves the parent as it is. -/
theorem heir_of_one_inherits :
    on (Ordinary.get Runner.call (.object 8) (.str "x") .null) withThis = (.ok (.int 1), withThis)
      ∧ (∃ m₁ m₂, on (Ordinary.set Runner.call (.object 8) (.str "x") (.int 5) .null) withThis
          = (.ok true, m₁)
        ∧ on (Ordinary.delete Runner.call (.object 8) (.str "x")) m₁ = (.ok true, m₂)
        ∧ on (Ordinary.get Runner.call (.object 8) (.str "x") .null) m₂ = (.ok (.int 1), m₂))
      ∧ (on (Eval.eval (invoke 1) (.object 3) superAssignX) withThis).2.heap.object? 7
        = withThis.heap.object? 7 := by
  obtain ⟨hlaws, hsuper, huncover⟩ := prototype_semantics
  have hrecord : withThis.heap.isRecord (.object 8) = true := rfl
  have hk : withThis.heap.keyOf? (.str "x") = some (.str "x") := rfl
  have hread := ((hlaws hrecord).1 hk).1.plain withThis_nearest rfl Runner.call .null
  refine ⟨hread, ?_, ?_⟩
  · have hparent : ∀ p, some 7 = some p → p < 8 ∧ withThis.heap.isRecord (.object p) = true := by
      rintro p ⟨⟩
      exact ⟨by decide, rfl⟩
    have hthis : receiverOf (.object 8) .null = .object 8 := rfl
    have hinherited : Prototype.inherited withThis.heap (.str "x") (some 7) = .int 1 := by
      decide +kernel
    obtain ⟨m₁, m₂, hset, -, hdelete, -, hback⟩ :=
      huncover rfl hparent hk withThis_plain hthis Runner.call (.int 5)
    refine ⟨m₁, m₂, hset, hdelete, ?_⟩
    rw [← hinherited]
    exact hback.ofHeir 8 [] rfl rfl nofun Runner.call .null
  · let m : Machine := { withThis with current := some superAssignX }
    have hnew : on (Eval.eval (invoke 1) (.object 3) (.literal (.int 2) none)) m
        = (.ok (.int 2), { m with current := some (.literal (.int 2) none) }) := rfl
    obtain ⟨r, home, strict, heq, hr, hlands⟩ := hsuper withThis_superReference hnew
    cases heq
    have hunconsulted : consulted? m.heap 7 (.str "x") = none := by decide +kernel
    refine (hlands none (by decide) ⟨.plain, _, false, rfl⟩).2 ?_ 7 (by decide)
    intro g s hconsulted
    exact nomatch hunconsulted.symm.trans hconsulted

/-- The getter of an accessor can be deleted. A read that meets the accessor then is a fault of the
host's own, though the accessor has no getter. -/
theorem removed_getter_fails :
    let m := withParentAndHeir (slotX 5) .empty false
    let removed := on (Attribute.delete (.object 5) "get") m
    removed.1.toOption = some true
      ∧ m.heap.object? 8 = some (.record .plain .empty (some 7) false)
      ∧ (on (Ordinary.get Runner.call (.object 8) (.str "x") .null) removed.2).1.toOption = none := by
  intro m removed
  exact ⟨rfl, rfl, by decide +kernel⟩

end ChainScript
