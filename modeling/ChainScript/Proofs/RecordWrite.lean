import ChainScript.Proofs.RefusedAccess
import ChainScript.Proofs.ReservedSymbols

/-!
# Accessors and freezing under writes to records

A write to a record consults one record and lands on another. An accessor takes the write over where
the nearest owner of the key, looked for from the base, holds it: `own_accessor_outlives_write`. An
accessor that the receiver holds itself is out of sight where the base is another record, so such a
write puts the value in its place: `Ordinary.on_set_unconsulted`.

Whether an accessor takes a write over is asked before whether the record is frozen. So a frozen
record refuses every delete of a slot that it has, and it refuses a write exactly where no setter
would run: `frozen_record_refuses`.
-/

namespace ChainScript

open Run (on)

namespace Ordinary

variable {m : Machine} {base id : ObjectId} {k : Key} {key this : Value}

/-- A record that holds an accessor itself consults that one. -/
theorem consulted?_self {h : Heap} {a : ObjectId} {getter setter : Option Value}
    (hslot : h.ownValue? id k = some (.object a))
    (haccessor : h.object? a = some (.accessor getter setter)) :
    consulted? h id k = some (getter, setter) := by
  rw [consulted?, h.owner?_self hslot, Option.bind_some, hslot, Option.bind_some, accessor?,
    Heap.objectOf?, haccessor]

/-- An accessor that takes a write to a record over, if there is one, has null for its setter. -/
def Setterless (h : Heap) (record : ObjectId) (k : Key) : Prop :=
  ∀ getter setter, consulted? h record k = some (getter, setter) → setter = some .null

variable {kind : RecordClass} {slots : Slots} {parent : Option ObjectId} {frozen : Bool}

/-- A write that consults no accessor puts the value into the slot of the record on which it lands,
whatever that slot holds, unless the record is frozen. -/
theorem on_set_unconsulted (call : Caller) (hbase : m.heap.isRecord (.object base) = true)
    (hk : m.heap.keyOf? key = some k) (hconsulted : consulted? m.heap base k = none)
    (hlanding : landing m.heap base (receiverOf (.object base) this) = id)
    (ho : m.heap.object? id = some (.record kind slots parent frozen)) (value : Value) :
    on (set call (.object base) key value this) m =
      if frozen then (.ok false, m)
      else (.ok true,
        { m with heap := m.heap.put id (.record kind (Slots.put slots k key value) parent false) }) := by
  obtain ⟨c, s, p, f, hrecord⟩ := Heap.exists_object?_of_isRecord hbase
  rw [on_set_record call hrecord hk, hconsulted]
  dsimp only
  rw [hlanding, on_writeOwn, ho]
  cases frozen <;> rfl

/-- A frozen record keeps the slots that it has. -/
theorem on_delete_frozen (call : Caller)
    (ho : m.heap.object? id = some (.record kind slots parent true))
    (hk : m.heap.keyOf? key = some k) :
    on (delete call (.object id) key) m = (.ok (!Table.contains slots k), m) := by
  rw [on_delete_record call ho hk]
  cases Table.contains slots k <;> rfl

/-- A frozen record refuses a write that would land on it exactly where no setter takes it over. -/
theorem set_refused_iff_setterless (hbase : m.heap.isRecord (.object base) = true)
    (hk : m.heap.keyOf? key = some k)
    (hlanding : landing m.heap base (receiverOf (.object base) this) = id)
    (ho : m.heap.object? id = some (.record kind slots parent true)) :
    (∀ call value, on (set call (.object base) key value this) m = (.ok false, m))
      ↔ Setterless m.heap base k := by
  obtain ⟨c, s, p, f, hrecord⟩ := Heap.exists_object?_of_isRecord hbase
  constructor
  · intro hrefused getter setter hconsulted
    -- A caller that fails shows that nothing was called.
    have hset := hrefused (fun _ _ => Run.outside) .null
    rw [on_set_record _ hrecord hk, hconsulted] at hset
    rcases setter with _ | setter
    · cases hset
    · cases setter with
      | null => rfl
      | _ => cases hset
  · intro hsetterless call value
    cases hconsulted : consulted? m.heap base k with
    | none =>
      rw [on_set_unconsulted call hbase hk hconsulted hlanding ho]
      rfl
    | some accessor =>
      obtain ⟨getter, setter⟩ := accessor
      obtain rfl := hsetterless getter setter hconsulted
      rw [on_set_record call hrecord hk, hconsulted]

end Ordinary

open Ordinary (consulted? landing receiverOf Setterless)

/-! ## Accessors -/

/-- A write to a record whose receiver holds an accessor leaves it in its slot, unless a setter that
ran replaced it, wherever the write consults an accessor at all: always if the base is the receiver.
The setter of the accessor that is consulted runs on the receiver with the value, and the write
succeeds. It fails, and changes nothing, where there is no setter. -/
theorem own_accessor_outlives_write {m : Machine} {base r a : ObjectId} {key this : Value} {k : Key}
    {getter setter : Option Value} (hbase : m.heap.isRecord (.object base) = true)
    (hreceiver : receiverOf (.object base) this = .object r) (hk : m.heap.keyOf? key = some k)
    (hslot : m.heap.ownValue? r k = some (.object a))
    (haccessor : m.heap.object? a = some (.accessor getter setter))
    (hconsulted : base = r ∨ (consulted? m.heap base k).isSome)
    (hkept : ∀ g, consulted? m.heap base k ≠ some (g, none)) :
    ∃ g s, consulted? m.heap base k = some (g, some s)
      ∧ (base = r → (getter, setter) = (g, some s))
      ∧ ∀ call value,
        (s = .null → on (Ordinary.set call (.object base) key value this) m = (.ok false, m))
        ∧ (s ≠ .null → on (Ordinary.set call (.object base) key value this) m = on (do
            let _ ← call s [.object r, value]
            return true) m)
        ∧ ((on (Ordinary.set call (.object base) key value this) m).2.heap.ownValue? r k
              = some (.object a)
          ∨ s ≠ .null ∧ (on (Ordinary.set call (.object base) key value this) m).2
              = (on (call s [.object r, value]) m).2) := by
  obtain ⟨c, slots, p, f, hrecord⟩ := Heap.exists_object?_of_isRecord hbase
  have hself : base = r → consulted? m.heap base k = some (getter, setter) := by
    rintro rfl
    exact Ordinary.consulted?_self hslot haccessor
  -- Both hypotheses on where the write looks come to one accessor that it consults. What is left to
  -- tell apart is whether that one has a setter.
  obtain ⟨⟨g, s⟩, hfound⟩ : ∃ accessor, consulted? m.heap base k = some accessor :=
    hconsulted.elim (fun heq => ⟨_, hself heq⟩) Option.isSome_iff_exists.mp
  obtain _ | s := s
  · exact (hkept g hfound).elim
  refine ⟨g, s, hfound, fun heq => Option.some.inj ((hself heq).symm.trans hfound),
    fun call value => ?_⟩
  have hset := Ordinary.on_set_record call hrecord hk value this
  rw [hfound, hreceiver] at hset
  by_cases hnull : s = .null
  · subst hnull
    exact ⟨fun _ => hset, fun h => (h rfl).elim, .inl (by rw [hset]; exact hslot)⟩
  · have hruns : on (Ordinary.set call (.object base) key value this) m = on (do
        let _ ← call s [.object r, value]
        return true) m := by
      rw [hset]
      cases s with
      | null => exact (hnull rfl).elim
      | _ => rfl
    refine ⟨fun h => (hnull h).elim, fun _ => hruns, .inr ⟨hnull, ?_⟩⟩
    rw [hruns, Run.on_bind]
    rcases on (call s [.object r, value]) m with ⟨_ | _, _⟩ <;> rfl

/-- A machine with a record and an heir of it, which is frozen or not. Object 5 is an accessor that
has only a getter, and object 6 one that has only a setter. The record is object 7, and its heir
object 8. -/
def withParentAndHeir (inherited own : Slots) (frozen : Bool) : Machine :=
  let (f, heap) := Machine.blank.heap.alloc (.function ⟨none, false, .arguments, .plain⟩)
  let (_, heap) := heap.alloc (.accessor (some (.object f)) (some .null))
  let (_, heap) := heap.alloc (.accessor (some .null) (some (.object f)))
  let (parent, heap) := heap.alloc (.record .plain inherited none false)
  { Machine.blank with heap := (heap.alloc (.record .plain own (some parent) frozen)).2 }

/-- The slot `x` with an object in it. -/
def slotX (id : ObjectId) : Slots := Slots.put .empty (.str "x") (.str "x") (.object id)

/-- An inherited setter takes a write over that an accessor of the receiver, which has none, would
refuse. The accessor stays. -/
theorem inherited_setter_runs_for_heir :
    let m := withParentAndHeir (slotX 6) (slotX 5) false
    m.heap.isRecord (.object 7) = true ∧ receiverOf (.object 7) (.object 8) = .object 8
      ∧ m.heap.keyOf? (.str "x") = some (.str "x")
      ∧ m.heap.ownValue? 8 (.str "x") = some (.object 5)
      ∧ m.heap.object? 5 = some (.accessor (some (.object 4)) (some .null))
      ∧ consulted? m.heap 7 (.str "x") = some (some .null, some (.object 4))
      ∧ on (Ordinary.set Runner.call (.object 7) (.str "x") (.int 1) (.object 8)) m = on (do
          let _ ← Runner.call (.object 4) [.object 8, .int 1]
          return true) m := by
  intro m
  have hreceiver : receiverOf (.object 7) (.object 8) = .object 8 := rfl
  have hk : m.heap.keyOf? (.str "x") = some (.str "x") := rfl
  have hslot : m.heap.ownValue? 8 (.str "x") = some (.object 5) := rfl
  have haccessor : m.heap.object? 5 = some (.accessor (some (.object 4)) (some .null)) := rfl
  have hconsulted : consulted? m.heap 7 (.str "x") = some (some .null, some (.object 4)) := by
    decide +kernel
  have hkept : ∀ g, consulted? m.heap 7 (.str "x") ≠ some (g, none) :=
    fun g hremoved => nomatch hconsulted.symm.trans hremoved
  refine ⟨rfl, hreceiver, hk, hslot, haccessor, hconsulted, ?_⟩
  obtain ⟨g, s, hfound, -, hset⟩ := own_accessor_outlives_write rfl hreceiver hk hslot haccessor
    (.inr (by rw [hconsulted]; rfl)) hkept
  cases hconsulted.symm.trans hfound
  exact (hset Runner.call (.int 1)).2.1 nofun

/-- A write through the parent does not see the accessor of the heir and puts the value in its
place, though that accessor has no setter. -/
theorem accessor_of_heir_is_lost :
    let m := withParentAndHeir .empty (slotX 5) false
    m.heap.ownValue? 8 (.str "x") = some (.object 5)
      ∧ m.heap.object? 5 = some (.accessor (some (.object 4)) (some .null))
      ∧ (on (Ordinary.set Runner.call (.object 7) (.str "x") (.int 1) (.object 8)) m).1 = .ok true
      ∧ (on (Ordinary.set Runner.call (.object 7) (.str "x") (.int 1) (.object 8)) m).2.heap.ownValue? 8
          (.str "x") = some (.int 1) := by
  intro m
  have hconsulted : consulted? m.heap 7 (.str "x") = none := by decide +kernel
  have hk : m.heap.keyOf? (.str "x") = some (.str "x") := rfl
  have hlanding : landing m.heap 7 (receiverOf (.object 7) (.object 8)) = 8 := rfl
  rw [Ordinary.on_set_unconsulted Runner.call rfl hk hconsulted hlanding rfl (.int 1)]
  exact ⟨rfl, rfl, rfl, rfl⟩

/-! ## Frozen records -/

/-- A frozen record refuses every delete of a slot that it has, and answers one of any other slot
with success. It refuses every write that would land on it, running no setter and changing nothing,
exactly where no accessor that has a setter takes the write over. A strict program is then told of
every such write, and a sloppy one is not, and all that either leaves behind is the trace. -/
theorem frozen_record_refuses {m : Machine} {r base : ObjectId} {kind : RecordClass} {slots : Slots}
    {parent : Option ObjectId} {key this : Value}
    (ho : m.heap.object? r = some (.record kind slots parent true))
    (hbase : m.heap.isRecord (.object base) = true)
    (hlanding : landing m.heap base (receiverOf (.object base) this) = r)
    (hkey : m.heap.isPrimitive key = true) :
    ∃ k, m.heap.keyOf? key = some k
      ∧ (∀ call, on (Ordinary.delete call (.object r) key) m = (.ok (!Table.contains slots k), m))
      ∧ ((∀ call value, on (Ordinary.set call (.object base) key value this) m = (.ok false, m))
          ↔ Setterless m.heap base k)
      ∧ (Setterless m.heap base k → ∀ call value strict isSuper m',
          Dispatch.Reaches "write" key m m' →
            let ref := RecordChange.reference base key this strict isSuper
            on (Dispatch.write call ref value) m
                = (if strict then .error (.fault (.writeRefused key ref)) else .ok (), m')
              ∧ ∃ trace, m' = { m with trace }) := by
  have hk := Heap.keyOf?_of_isPrimitive hkey
  refine ⟨_, hk, fun call => Ordinary.on_delete_frozen call ho hk,
    Ordinary.set_refused_iff_setterless hbase hk hlanding ho, ?_⟩
  intro hsetterless call value strict isSuper m' hreach ref
  obtain ⟨trace, rfl, -⟩ := hreach.noted
  refine ⟨hreach.on_write_refused rfl ?_, trace, rfl⟩
  -- The note of the access leaves the heap as it is, so the write is refused on the machine it
  -- left.
  have hrefused := (Ordinary.set_refused_iff_setterless (m := { m with trace }) hbase hk hlanding ho).mpr
    hsetterless call value
  exact hrefused

/-- A frozen heir of a record whose accessor has no setter refuses a write, and a strict program is
told. -/
theorem frozen_heir_refuses :
    let m := withParentAndHeir (slotX 5) .empty true
    let ref := RecordChange.reference 8 (.str "x") (.object 8) true false
    m.heap.object? 8 = some (.record .plain .empty (some 7) true)
      ∧ m.heap.isRecord (.object 8) = true
      ∧ landing m.heap 8 (receiverOf (.object 8) (.object 8)) = 8
      ∧ m.heap.isPrimitive (.str "x") = true
      ∧ Setterless m.heap 8 (.str "x")
      ∧ Dispatch.Reaches "write" (.str "x") m m
      ∧ on (Dispatch.write Runner.call ref (.int 1)) m
          = (.error (.fault (.writeRefused (.str "x") ref)), m) := by
  intro m ref
  have hconsulted : consulted? m.heap 8 (.str "x") = some (some (.object 4), some .null) := by
    decide +kernel
  have hsetterless : Setterless m.heap 8 (.str "x") := by
    intro getter setter hfound
    cases hconsulted.symm.trans hfound
    rfl
  have hreach : Dispatch.Reaches "write" (.str "x") m m := by
    rw [Dispatch.Reaches, Dispatch.on_noteOrdinary]
    rfl
  have ho : m.heap.object? 8 = some (.record .plain .empty (some 7) true) := rfl
  have hlanding : landing m.heap 8 (receiverOf (.object 8) (.object 8)) = 8 := rfl
  have hkey : m.heap.isPrimitive (.str "x") = true := rfl
  obtain ⟨k, hk, -, -, hwrite⟩ := frozen_record_refuses ho rfl hlanding hkey
  cases hk
  exact ⟨ho, rfl, hlanding, hkey, hsetterless, hreach,
    (hwrite hsetterless Runner.call (.int 1) true false m hreach).1⟩

/-- A frozen record with a setter takes a write. -/
theorem frozen_setter_runs :
    let m := withParentAndHeir .empty (slotX 6) true
    m.heap.object? 8 = some (.record .plain (slotX 6) (some 7) true)
      ∧ (on (Ordinary.set Runner.call (.object 8) (.str "x") (.int 1) .null) m).1.toOption
        = some true := by
  intro m
  exact ⟨rfl, by decide +kernel⟩

end ChainScript
