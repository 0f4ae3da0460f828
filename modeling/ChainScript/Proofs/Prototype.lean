import ChainScript.Proofs.Chain
import ChainScript.Proofs.RecordWrite

/-!
# Reading and writing along a chain of parents

A read from a record is decided by the nearest record of its chain that holds the key, however far
up it stands, and a getter that is met there runs on the object that was accessed:
`Prototype.Reads`. A write looks for an accessor in the same way. Only where it meets none it
changes anything itself, and then a single slot of the receiver, or of the base where the receiver
is no record: `Prototype.Writes`.

So what a record inherits comes back when the slot that hides it is deleted, for the record itself
and for every heir that finds the key nowhere nearer: `Prototype.uncover`.
-/

namespace ChainScript

open Run (on)
open Ordinary (accessor? consulted? landing receiverOf)

/-! ## The nearest holder in a chain -/

/-- The first of a chain that holds a key, and what it holds. -/
structure Heap.Nearest (h : Heap) (k : Key) (id owner : ObjectId) (v : Value) : Prop where
  first : ∃ before after, h.chain id = before ++ owner :: after ∧ ∀ x ∈ before, h.ownValue? x k = none
  held : h.ownValue? owner k = some v

namespace Heap

variable {h : Heap} {k : Key} {id owner : ObjectId} {v : Value}

/-- Nothing of a list that holds no key is found to hold it. -/
theorem not_owns_of_ownValue?_none (hnone : h.ownValue? id k = none) : ¬h.owns k id = true := by
  rw [owns, hnone]
  exact Bool.false_ne_true

/-- The first of a chain that holds a key is its nearest owner. -/
theorem Nearest.owner? (hn : h.Nearest k id owner v) : h.owner? k id = some owner := by
  obtain ⟨before, after, hchain, hbefore⟩ := hn.first
  rw [owner?_eq_find?_chain, hchain, List.find?_append,
    List.find?_eq_none.mpr fun x hx => not_owns_of_ownValue?_none (hbefore x hx), Option.none_or]
  have howns : h.owns k owner = true := by rw [owns, hn.held]; rfl
  exact List.find?_cons_of_pos howns

/-- The nearest value that is owned is the one that is found. -/
theorem Nearest.nearest? (hn : h.Nearest k id owner v) : h.nearest? k id = some v := by
  rw [nearest?_of_owner? hn.owner?, hn.held]

/-- What is found has been found at the first of the chain that holds the key. -/
theorem exists_nearest (hv : h.nearest? k id = some v) : ∃ owner, h.Nearest k id owner v := by
  cases howner : h.owner? k id with
  | none =>
    rw [nearest?_eq_none.mpr howner] at hv
    cases hv
  | some owner =>
    rw [nearest?_of_owner? howner] at hv
    rw [owner?_eq_find?_chain] at howner
    obtain ⟨-, before, after, hchain, hbefore⟩ := List.find?_eq_some_iff_append.mp howner
    refine ⟨owner, ⟨before, after, hchain, fun x hx => ?_⟩, hv⟩
    have hnot := hbefore x hx
    rw [owns, Bool.not_eq_true', Option.isSome_eq_false_iff, Option.isNone_iff_eq_none] at hnot
    exact hnot

/-- Where nothing of the chain holds the key, there is no value. -/
theorem nearest?_of_unowned (hnone : ∀ x ∈ h.chain id, h.ownValue? x k = none) :
    h.nearest? k id = none := by
  rw [nearest?_eq_none, owner?_eq_find?_chain, List.find?_eq_none]
  exact fun x hx => not_owns_of_ownValue?_none (hnone x hx)

/-- What holds nothing nearer finds what the record further up its chain finds. -/
theorem nearest?_of_append {d : ObjectId} {before : List ObjectId}
    (hchain : h.chain d = before ++ h.chain id) (hbefore : ∀ x ∈ before, h.ownValue? x k = none) :
    h.nearest? k d = h.nearest? k id := by
  have howner : h.owner? k d = h.owner? k id := by
    rw [owner?_eq_find?_chain, owner?_eq_find?_chain, hchain, List.find?_append,
      List.find?_eq_none.mpr fun x hx => not_owns_of_ownValue?_none (hbefore x hx), Option.none_or]
  rw [Heap.nearest?, Heap.nearest?, howner]

end Heap

namespace Prototype

/-! ## Reads -/

/-- How a read from a record ends: with the value that the nearest holder of the key has, or, if
that is an accessor, by one call of its getter on the receiver. -/
structure Reads (m : Machine) (id : ObjectId) (key : Value) (k : Key) : Prop where
  unowned : (∀ x ∈ m.heap.chain id, m.heap.ownValue? x k = none) → ∀ call this,
    on (Ordinary.get call (.object id) key this) m = (.ok .undefined, m)
  plain : ∀ {owner v}, m.heap.Nearest k id owner v → accessor? m.heap v = none → ∀ call this,
    on (Ordinary.get call (.object id) key this) m = (.ok v, m)
  getter : ∀ {owner v g s}, m.heap.Nearest k id owner v → accessor? m.heap v = some (some g, s) →
    g ≠ .null → ∀ call this, on (Ordinary.get call (.object id) key this) m
      = on (call g [receiverOf (.object id) this]) m
  getterless : ∀ {owner v s}, m.heap.Nearest k id owner v → accessor? m.heap v = some (some .null, s) →
    ∀ call this, on (Ordinary.get call (.object id) key this) m = (.ok .undefined, m)
  /-- The getter of an accessor can be deleted, which is not to have null for a getter. -/
  removed : ∀ {owner v s}, m.heap.Nearest k id owner v → accessor? m.heap v = some (none, s) →
    ∀ call this, on (Ordinary.get call (.object id) key this) m
      = (.error (.fault (.native .attributeError)), m)

variable {m : Machine} {id : ObjectId} {key : Value} {k : Key}

/-- A read from a record depends on what the nearest holder of the key has. -/
theorem on_get (hrecord : m.heap.isRecord (.object id) = true) (hk : m.heap.keyOf? key = some k)
    (call : Caller) (this : Value) :
    on (Ordinary.get call (.object id) key this) m = match m.heap.nearest? k id with
      | none => (.ok .undefined, m)
      | some v =>
        match accessor? m.heap v with
        | none => (.ok v, m)
        | some (none, _) => (.error (.fault (.native .attributeError)), m)
        | some (some .null, _) => (.ok .undefined, m)
        | some (some getter, _) => on (call getter [receiverOf (.object id) this]) m := by
  obtain ⟨c, slots, p, f, ho⟩ := Heap.exists_object?_of_isRecord hrecord
  exact Ordinary.on_get_record call ho hk this

/-- Reads of a record find the nearest value. -/
theorem reads (hrecord : m.heap.isRecord (.object id) = true) (hk : m.heap.keyOf? key = some k) :
    Reads m id key k where
  unowned hnone call this := by
    rw [on_get hrecord hk, Heap.nearest?_of_unowned hnone]
  plain hn ha call this := by
    rw [on_get hrecord hk, hn.nearest?]
    dsimp only
    rw [ha]
  getter hn ha hg call this := by
    rw [on_get hrecord hk, hn.nearest?]
    dsimp only
    rw [ha]
    rename_i g s
    cases g with
    | null => exact (hg rfl).elim
    | _ => rfl
  getterless hn ha call this := by
    rw [on_get hrecord hk, hn.nearest?]
    dsimp only
    rw [ha]
  removed hn ha call this := by
    rw [on_get hrecord hk, hn.nearest?]
    dsimp only
    rw [ha]

/-! ## Writes -/

/-- The second machine differs from the first in one slot of a record, which is not frozen: it holds
the given value there, or holds nothing. -/
def SlotChanged (m m' : Machine) (t : ObjectId) (k : Key) (v : Option Value) : Prop :=
  ∃ kind slots slots' parent, m.heap.object? t = some (.record kind slots parent false)
    ∧ m' = { m with heap := m.heap.put t (.record kind slots' parent false) }
    ∧ ∀ j, Slots.value? slots' j = if j = k then v else Slots.value? slots j

/-- How a write to a record ends. Where the nearest holder of the key has an accessor, its setter is
called once, with the receiver and the value, and that is all. Elsewhere one slot changes, unless
the record that has it is frozen. -/
structure Writes (m : Machine) (id : ObjectId) (key : Value) (k : Key) : Prop where
  own : (∀ owner v, m.heap.Nearest k id owner v → accessor? m.heap v = none) → ∀ call value this,
    let target := landing m.heap id (receiverOf (.object id) this)
    on (Ordinary.set call (.object id) key value this) m = (.ok false, m)
      ∨ ∃ m', on (Ordinary.set call (.object id) key value this) m = (.ok true, m')
        ∧ SlotChanged m m' target k (some value)
  setter : ∀ {owner v g s}, m.heap.Nearest k id owner v → accessor? m.heap v = some (g, some s) →
    s ≠ .null → ∀ call value this, on (Ordinary.set call (.object id) key value this) m = on (do
      let _ ← call s [receiverOf (.object id) this, value]
      return true) m
  setterless : ∀ {owner v g}, m.heap.Nearest k id owner v → accessor? m.heap v = some (g, some .null) →
    ∀ call value this, on (Ordinary.set call (.object id) key value this) m = (.ok false, m)
  /-- The setter of an accessor can be deleted, which is not to have null for a setter. -/
  removed : ∀ {owner v g}, m.heap.Nearest k id owner v → accessor? m.heap v = some (g, none) →
    ∀ call value this, on (Ordinary.set call (.object id) key value this) m
      = (.error (.fault (.native .attributeError)), m)

/-- What a write consults is what the nearest holder of the key has, if that is an accessor. -/
theorem consulted?_of_nearest {h : Heap} {owner : ObjectId} {v : Value}
    (hn : h.Nearest k id owner v) : consulted? h id k = accessor? h v := by
  show (h.nearest? k id).bind (accessor? h) = _
  rw [hn.nearest?]
  rfl

/-- Where the nearest holder has no accessor, a write consults none. -/
theorem consulted?_eq_none {h : Heap}
    (hplain : ∀ owner v, h.Nearest k id owner v → accessor? h v = none) :
    consulted? h id k = none := by
  show (h.nearest? k id).bind (accessor? h) = none
  cases hv : h.nearest? k id with
  | none => rfl
  | some v =>
    obtain ⟨owner, hn⟩ := Heap.exists_nearest hv
    exact hplain owner v hn

/-- A write lands on a record. -/
theorem isRecord_landing {h : Heap} (hrecord : h.isRecord (.object id) = true) (receiver : Value) :
    h.isRecord (.object (landing h id receiver)) = true := by
  unfold landing
  split
  · split
    · assumption
    · exact hrecord
  · exact hrecord

/-- A slot that is written has the value, and every other slot of the record what it had. -/
theorem slotChanged_put {kind : RecordClass} {slots : Slots} {parent : Option ObjectId} {t : ObjectId}
    (ho : m.heap.object? t = some (.record kind slots parent false)) (k : Key) (label value : Value) :
    SlotChanged m
      { m with heap := m.heap.put t (.record kind (Slots.put slots k label value) parent false) } t k
      (some value) :=
  ⟨kind, slots, _, parent, ho, rfl, fun j => Slots.value?_put slots k j label value⟩

/-- A write that consults no accessor changes one slot, unless it is refused. -/
theorem on_set_of_unconsulted (hrecord : m.heap.isRecord (.object id) = true)
    (hk : m.heap.keyOf? key = some k) (hconsulted : consulted? m.heap id k = none) (call : Caller)
    (value this : Value) :
    on (Ordinary.set call (.object id) key value this) m = (.ok false, m)
      ∨ ∃ m', on (Ordinary.set call (.object id) key value this) m = (.ok true, m')
        ∧ SlotChanged m m' (landing m.heap id (receiverOf (.object id) this)) k (some value) := by
  obtain ⟨c, slots, p, frozen, ho⟩ := Heap.exists_object?_of_isRecord
    (isRecord_landing hrecord (receiverOf (.object id) this))
  rw [Ordinary.on_set_unconsulted call hrecord hk hconsulted rfl ho]
  cases frozen with
  | true => exact .inl rfl
  | false => exact .inr ⟨_, rfl, slotChanged_put ho k key value⟩

/-- Writes to a record land on it, unless an accessor is in the way. -/
theorem writes (hrecord : m.heap.isRecord (.object id) = true) (hk : m.heap.keyOf? key = some k) :
    Writes m id key k := by
  obtain ⟨c, slots, p, f, ho⟩ := Heap.exists_object?_of_isRecord hrecord
  refine ⟨fun hplain => on_set_of_unconsulted hrecord hk (consulted?_eq_none hplain), ?_, ?_, ?_⟩
  · intro owner v g s hn ha hs call value this
    rw [Ordinary.on_set_record call ho hk, consulted?_of_nearest hn, ha]
    cases s with
    | null => exact (hs rfl).elim
    | _ => rfl
  · intro owner v g hn ha call value this
    rw [Ordinary.on_set_record call ho hk, consulted?_of_nearest hn, ha]
  · intro owner v g hn ha call value this
    rw [Ordinary.on_set_record call ho hk, consulted?_of_nearest hn, ha]

/-- A key that cannot name a slot is refused by the host. -/
theorem on_unkeyed (hrecord : m.heap.isRecord (.object id) = true) (hk : m.heap.keyOf? key = none)
    (call : Caller) (value this : Value) :
    on (Ordinary.get call (.object id) key this) m = (.error (.fault (.native .typeError)), m)
      ∧ on (Ordinary.set call (.object id) key value this) m
        = (.error (.fault (.native .typeError)), m) := by
  obtain ⟨c, slots, p, f, ho⟩ := Heap.exists_object?_of_isRecord hrecord
  have hkey : on (Run.keyOf key) m = (.error (.fault (.native .typeError)), m) := by
    rw [Run.on_keyOf, Run.keyOfResult, hk]
  constructor
  · rw [Ordinary.get, Run.on_bind, Run.on_heap]
    dsimp only [Heap.objectOf?]
    rw [ho]
    exact Run.on_bind_error hkey
  · unfold Ordinary.set
    rw [Run.on_bind, Run.on_heap]
    dsimp only [Heap.objectOf?]
    rw [ho]
    exact Run.on_bind_error hkey

/-! ## What a changed slot leaves alone -/

namespace SlotChanged

variable {m' : Machine} {t : ObjectId} {v : Option Value} (hc : SlotChanged m m' t k v)
include hc

/-- No other object differs. -/
theorem object?_of_ne {x : ObjectId} (hx : x ≠ t) : m'.heap.object? x = m.heap.object? x := by
  obtain ⟨kind, slots, slots', parent, -, rfl, -⟩ := hc
  exact (Heap.object?_put ..).trans (if_neg hx)

/-- The record stays one, of its kind and with its parent. -/
theorem object?_self : ∃ kind slots slots' parent,
    m.heap.object? t = some (.record kind slots parent false)
      ∧ m'.heap.object? t = some (.record kind slots' parent false)
      ∧ ∀ j, Slots.value? slots' j = if j = k then v else Slots.value? slots j := by
  obtain ⟨kind, slots, slots', parent, ho, rfl, hslots⟩ := hc
  exact ⟨kind, slots, slots', parent, ho, Heap.object?_put_self ho _, hslots⟩

/-- The heap after the write differs in that place at most. -/
theorem differsUnder : m.heap.DiffersUnder m'.heap t k := by
  obtain ⟨kind, slots, slots', parent, ho, rfl, hslots⟩ := hc
  have hlink : m.heap.link? t = some (slots, parent) := by rw [Heap.link?, ho]
  have hlink' : (m.heap.put t (.record kind slots' parent false)).link? t = some (slots', parent) := by
    rw [Heap.link?, Heap.object?_put_self ho]
  exact .put hlink hlink' fun j hj => by rw [hslots, if_neg hj]

/-- The slot has the value that it was given. -/
theorem ownValue?_self : m'.heap.ownValue? t k = v := by
  obtain ⟨kind, slots, slots', parent, -, ho', hslots⟩ := hc.object?_self
  rw [Heap.ownValue?, Heap.link?, ho']
  exact (hslots k).trans (if_pos rfl)

/-- Accessors stay accessors, and nothing else becomes one. -/
theorem accessor?_eq (x : Value) : accessor? m'.heap x = accessor? m.heap x := by
  cases x with
  | object id =>
    unfold Ordinary.accessor? Heap.objectOf?
    dsimp only
    by_cases hid : id = t
    · subst hid
      obtain ⟨kind, slots, slots', parent, ho, ho', -⟩ := hc.object?_self
      rw [ho, ho']
    · rw [hc.object?_of_ne hid]
  | _ => rfl

/-- Records stay records, and nothing else becomes one. -/
theorem isRecord_eq (x : ObjectId) : m'.heap.isRecord (.object x) = m.heap.isRecord (.object x) := by
  unfold Heap.isRecord Heap.objectOf?
  dsimp only
  by_cases hx : x = t
  · subst hx
    obtain ⟨kind, slots, slots', parent, ho, ho', -⟩ := hc.object?_self
    rw [ho, ho']
  · rw [hc.object?_of_ne hx]

/-- What names a slot names the same one. -/
theorem objectKey?_eq (id : ObjectId) : m'.heap.objectKey? id = m.heap.objectKey? id := by
  induction id using Nat.strongRecOn with
  | ind id ih =>
    rw [Heap.objectKey?, Heap.objectKey?]
    by_cases hid : id = t
    · subst hid
      obtain ⟨kind, slots, slots', parent, ho, ho', -⟩ := hc.object?_self
      rw [ho, ho']
    · rw [hc.object?_of_ne hid]
      split
      · rfl
      · rfl
      · rfl
      · rfl
      · -- The items of a tuple are older than the tuple.
        refine congrArg _ (congrArg (Heap.allKeys · _) (funext fun item => ?_))
        split
        · split
          · rename_i hlt
            exact ih _ hlt
          · rfl
        · rfl
      · rfl

/-- Values have the same keys after the write. -/
theorem keyOf?_eq (key : Value) : m'.heap.keyOf? key = m.heap.keyOf? key := by
  cases key with
  | object id => exact hc.objectKey?_eq id
  | _ => rfl

end SlotChanged

/-- A write that calls no setter changes no object but the record on which it lands. -/
theorem set_object?_of_ne (hrecord : m.heap.isRecord (.object id) = true)
    (hk : m.heap.keyOf? key = some k)
    (hsetter : ∀ g s, consulted? m.heap id k = some (g, some s) → s = .null) (call : Caller)
    (value this : Value) {x : ObjectId} (hx : x ≠ landing m.heap id (receiverOf (.object id) this)) :
    (on (Ordinary.set call (.object id) key value this) m).2.heap.object? x = m.heap.object? x := by
  obtain ⟨c, slots, p, f, ho⟩ := Heap.exists_object?_of_isRecord hrecord
  rcases hconsulted : consulted? m.heap id k with _ | ⟨g, _ | s⟩
  · rcases on_set_of_unconsulted hrecord hk hconsulted call value this with hset | ⟨m', hset, hc⟩
    · rw [hset]
    · rw [hset]
      exact hc.object?_of_ne hx
  · rw [Ordinary.on_set_record call ho hk, hconsulted]
  · obtain rfl := hsetter g s hconsulted
    rw [Ordinary.on_set_record call ho hk, hconsulted]

/-! ## Uncovering what is inherited -/

/-- What a record without the key itself gives, by its parent. -/
def inherited (h : Heap) (k : Key) (parent : Option ObjectId) : Value :=
  (parent.bind (h.nearest? k)).getD .undefined

/-- A delete takes the slot of a record that is not frozen. -/
theorem on_delete (call : Caller) {kind : RecordClass} {slots : Slots} {parent : Option ObjectId}
    (ho : m.heap.object? id = some (.record kind slots parent false)) (hk : m.heap.keyOf? key = some k) :
    ∃ m', on (Ordinary.delete call (.object id) key) m = (.ok true, m') ∧ SlotChanged m m' id k none := by
  have herase : ∀ j, Slots.value? (Table.erase slots k) j
      = if j = k then none else Slots.value? slots j := by
    intro j
    rw [Slots.value?, Table.find?_erase]
    split <;> rfl
  refine ⟨_, ?_, kind, slots, _, parent, ho, rfl, herase⟩
  rw [Ordinary.on_delete_record call ho hk]
  cases hcontains : Table.contains slots k with
  | true => rfl
  | false =>
    -- A slot that is not there is gone already, and taking it away changes nothing.
    rw [Table.erase_of_not_contains hcontains, Heap.put_self ho]
    rfl

/-- Where no record of a chain holds an accessor under the key, a read gives what the nearest holder
has. -/
theorem on_get_of_plain (hrecord : m.heap.isRecord (.object id) = true)
    (hk : m.heap.keyOf? key = some k)
    (hplain : ∀ v, m.heap.nearest? k id = some v → accessor? m.heap v = none) (call : Caller)
    (this : Value) :
    on (Ordinary.get call (.object id) key this) m
      = (.ok ((m.heap.nearest? k id).getD .undefined), m) := by
  rw [on_get hrecord hk]
  cases hv : m.heap.nearest? k id with
  | none => rfl
  | some v =>
    dsimp only
    rw [hplain v hv]
    rfl

/-- After a slot of a record was written and deleted, the record gives under the key what its parent
gives, which is what the parent gave before. So does every heir of the record that finds the key
nowhere nearer. -/
structure Uncovered (m m₂ : Machine) (r : ObjectId) (parent : Option ObjectId) (key : Value)
    (k : Key) : Prop where
  parentless : parent = none → inherited m.heap k parent = .undefined
  ofParent : ∀ p, parent = some p → ∀ call this,
    on (Ordinary.get call (.object p) key this) m = (.ok (inherited m.heap k parent), m)
      ∧ on (Ordinary.get call (.object p) key this) m₂ = (.ok (inherited m.heap k parent), m₂)
  ofHeir : ∀ d before, m.heap.isRecord (.object d) = true → m.heap.chain d = before ++ m.heap.chain r →
    (∀ x ∈ before, m.heap.ownValue? x k = none) → ∀ call this,
      on (Ordinary.get call (.object d) key this) m₂ = (.ok (inherited m.heap k parent), m₂)

section

variable {r : ObjectId} {kind : RecordClass} {slots : Slots} {parent : Option ObjectId}
  (ho : m.heap.object? r = some (.record kind slots parent false))
  (hparent : ∀ p, parent = some p → p < r ∧ m.heap.isRecord (.object p) = true)
include ho hparent

/-- The chain of a parent is part of that of the record. -/
theorem chain_of_parent {p : ObjectId} (hp : parent = some p) :
    m.heap.chain r = r :: m.heap.chain p := by
  subst hp
  have hlink : m.heap.link? r = some (slots, some p) := by rw [Heap.link?, ho]
  exact Heap.chain_of_parent hlink (hparent p rfl).1

/-- A record that lost a slot finds under the key what its parent found before. -/
theorem nearest?_of_lost {h' : Heap} (hd : m.heap.DiffersUnder h' r k)
    (hlost : h'.ownValue? r k = none) :
    h'.nearest? k r = parent.bind (m.heap.nearest? k)
      ∧ ∀ p, parent = some p → h'.nearest? k p = m.heap.nearest? k p := by
  have hkept : ∀ p, parent = some p → h'.nearest? k p = m.heap.nearest? k p := by
    intro p hp
    have hnot : m.heap.owner? k p ≠ some r := fun howner =>
      Nat.not_le.mpr (hparent p hp).1 (Heap.le_of_mem_chain (Heap.mem_chain_of_owner? howner))
    have hsame : m.heap.owner? k p = h'.owner? k p :=
      hd.symm.owner?_of_held (fun howns => (Heap.not_owns_of_ownValue?_none hlost howns).elim) hnot
    exact hd.nearest?_eq hsame.symm fun _ => hsame ▸ hnot
  refine ⟨?_, hkept⟩
  have hlink : (m.heap.link? r).map Prod.snd = some parent := by rw [Heap.link?, ho]; rfl
  rw [← hd.parent r] at hlink
  obtain ⟨⟨slots', parent'⟩, hlink', hsame⟩ := Option.map_eq_some_iff.mp hlink
  obtain rfl : parent' = parent := hsame
  rw [Heap.nearest?, Heap.owner?_of_parent hlink' hlost fun p hp => (hparent p hp).1]
  cases parent' with
  | none => rfl
  | some p => exact hkept p rfl

/-- So does what finds the key nowhere nearer. -/
theorem nearest?_heir_of_lost {h' : Heap} (hd : m.heap.DiffersUnder h' r k)
    (hlost : h'.ownValue? r k = none) {d : ObjectId} {before : List ObjectId}
    (hchain : m.heap.chain d = before ++ m.heap.chain r)
    (hbefore : ∀ x ∈ before, m.heap.ownValue? x k = none) :
    h'.nearest? k d = parent.bind (m.heap.nearest? k) := by
  have hlink : m.heap.link? r = some (slots, parent) := by rw [Heap.link?, ho]
  have hself : r ∈ m.heap.chain r := Heap.self_mem_chain hlink
  have hnodup := m.heap.nodup_chain d
  rw [hchain] at hnodup
  -- Nothing before the record is the record, so it holds what it held.
  have hkept : ∀ x ∈ before, h'.ownValue? x k = none := by
    intro x hx
    have hne : x ≠ r := fun he => (List.nodup_append.mp hnodup).2.2 x hx r hself he
    rw [hd.held x k fun he => hne he.1, hbefore x hx]
  have hchain' : h'.chain d = before ++ h'.chain r := by rw [hd.chain_eq, hd.chain_eq, hchain]
  rw [Heap.nearest?_of_append hchain' hkept, (nearest?_of_lost ho hparent hd hlost).1]

/-- What the parent finds is no accessor if nothing in the chain of the record is one. -/
theorem accessor?_inherited
    (hplain : ∀ x ∈ m.heap.chain r, ∀ v, m.heap.ownValue? x k = some v → accessor? m.heap v = none)
    {v : Value} (hv : parent.bind (m.heap.nearest? k) = some v) : accessor? m.heap v = none := by
  obtain ⟨p, hp, hv⟩ := Option.bind_eq_some_iff.mp hv
  obtain ⟨owner, hn⟩ := Heap.exists_nearest hv
  refine hplain owner ?_ v hn.held
  rw [chain_of_parent ho hparent hp]
  exact List.mem_cons_of_mem _ (Heap.mem_chain_of_owner? hn.owner?)

/-- A slot that changed and was then lost hides nothing any more. -/
theorem uncovered {m₁ m₂ : Machine} {v : Option Value} (hk : m.heap.keyOf? key = some k)
    (hplain : ∀ x ∈ m.heap.chain r, ∀ v, m.heap.ownValue? x k = some v → accessor? m.heap v = none)
    (hc₁ : SlotChanged m m₁ r k v) (hc₂ : SlotChanged m₁ m₂ r k none) :
    Uncovered m m₂ r parent key k := by
  have hd := hc₁.differsUnder.trans hc₂.differsUnder
  have hlost := hc₂.ownValue?_self
  obtain ⟨-, hkept⟩ := nearest?_of_lost ho hparent hd hlost
  have hk₂ : m₂.heap.keyOf? key = some k := by rw [hc₂.keyOf?_eq, hc₁.keyOf?_eq, hk]
  have haccessor : ∀ v, accessor? m₂.heap v = accessor? m.heap v := fun v => by
    rw [hc₂.accessor?_eq, hc₁.accessor?_eq]
  have hrecords : ∀ x, m₂.heap.isRecord (.object x) = m.heap.isRecord (.object x) := fun x => by
    rw [hc₂.isRecord_eq, hc₁.isRecord_eq]
  have hinherited := fun v => accessor?_inherited ho hparent hplain (v := v)
  -- What finds on the second machine what the parent found on the first gives that value.
  have hgives : ∀ d, m.heap.isRecord (.object d) = true →
      m₂.heap.nearest? k d = parent.bind (m.heap.nearest? k) → ∀ call this,
      on (Ordinary.get call (.object d) key this) m₂ = (.ok (inherited m.heap k parent), m₂) := by
    intro d hrecord hfinds call this
    rw [on_get_of_plain ((hrecords d).trans hrecord) hk₂ ?_ call this, hfinds]
    · rfl
    · rw [hfinds]
      exact fun v hv => (haccessor v).trans (hinherited v hv)
  refine ⟨?_, ?_, ?_⟩
  · rintro rfl
    rfl
  · rintro p rfl call this
    have hrecord := (hparent p rfl).2
    exact ⟨on_get_of_plain hrecord hk hinherited call this, hgives p hrecord (hkept p rfl) call this⟩
  · intro d before hrecord hchain hbefore
    exact hgives d hrecord (nearest?_heir_of_lost ho hparent hd hlost hchain hbefore)

/-- A write to a record and a delete of the slot bring to light what the slot hides. -/
theorem uncover (hk : m.heap.keyOf? key = some k)
    (hplain : ∀ x ∈ m.heap.chain r, ∀ v, m.heap.ownValue? x k = some v → accessor? m.heap v = none)
    {this : Value} (hthis : receiverOf (.object r) this = .object r) (call : Caller) (value : Value) :
    ∃ m₁ m₂, on (Ordinary.set call (.object r) key value this) m = (.ok true, m₁)
      ∧ SlotChanged m m₁ r k (some value)
      ∧ on (Ordinary.delete call (.object r) key) m₁ = (.ok true, m₂)
      ∧ SlotChanged m₁ m₂ r k none
      ∧ Uncovered m m₂ r parent key k := by
  have hrecord : m.heap.isRecord (.object r) = true := by simp [Heap.isRecord, Heap.objectOf?, ho]
  -- The write lands on the record itself.
  have hunconsulted : consulted? m.heap r k = none := consulted?_eq_none fun owner v hn =>
    hplain owner (Heap.mem_chain_of_owner? hn.owner?) v hn.held
  have hlanding : landing m.heap r (receiverOf (.object r) this) = r := by
    rw [hthis]
    simp [landing, hrecord]
  have hset := Ordinary.on_set_unconsulted call hrecord hk hunconsulted hlanding ho value
  rw [if_neg (by decide)] at hset
  have hc₁ := slotChanged_put ho k key value
  obtain ⟨_, _, slots₁, parent₁, -, ho₁, -⟩ := hc₁.object?_self
  obtain ⟨m₂, hdelete, hc₂⟩ := on_delete call ho₁ ((hc₁.keyOf?_eq key).trans hk)
  exact ⟨_, m₂, hset, hc₁, hdelete, hc₂, uncovered ho hparent hk hplain hc₁ hc₂⟩

end

end Prototype

end ChainScript
