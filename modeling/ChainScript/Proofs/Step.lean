import ChainScript.Access.Attribute
import ChainScript.Proofs.Action

/-!
# What a run can do to the heap

However a program reaches an object, it can do only a few things to it, which `Object.Change` lists.
The slots of a record change only while it is not frozen, and no change thaws a record or gives it
another parent. A `Heap.Step` makes an object, changes one, or replaces attributes, entering none
under a name that the object keeps in a place of its own. Two more are detours, which a guard can
bar: a frozen record may be emptied, and an environment may come to stand inside another that is
older.

An `Invariant` is a property of machines that these steps keep. The proofs about whole runs show
once that a run is made of such steps; every invariant of runs then comes down to the cases of
`Heap.Step`.
-/

namespace ChainScript

namespace StoreEntries

/-- What can become of the entries of a store. -/
inductive Change (entries : StoreEntries) : StoreEntries → Prop
  | put (key value : Value) : Change entries (put entries key value)
  | erase (key : Value) : Change entries (Table.erase entries (storeKey key))
  | clear : Change entries .empty

end StoreEntries

namespace Object

/-- The entries of an object that is a store of either kind. -/
def storeEntries? : Object → Option StoreEntries
  | .store entries | .weakStore entries => some entries
  | _ => none

/-- Whether an object can be made anywhere: it inherits from nothing, and is empty if it is a store.
-/
def standsAlone : Object → Bool
  | .record _ _ parent _ | .environment _ parent => parent.isNone
  | .store entries | .weakStore entries => Table.isEmpty entries
  | _ => true

/-- What can be made on a heap: a record that inherits from another that is there already, an
environment inside one that is there or inside the global one, and a store without entries. -/
def Fresh (globals : ObjectId) (h : Heap) : Object → Prop
  | .record _ _ parent _ => ∀ p, parent = some p → h.isRecord (.object p) = true
  | .environment _ parent => ∀ p, parent = some p →
    p = globals ∨ ∃ bindings outer, h.object? p = some (.environment bindings outer)
  | .store entries | .weakStore entries => Table.isEmpty entries
  | _ => True

/-- An object that refers to no other is fresh on every heap. -/
theorem fresh_of_standsAlone {o : Object} (ho : o.standsAlone = true) (globals : ObjectId)
    (h : Heap) : o.Fresh globals h := by
  cases o with
  | record _ _ parent _ | environment _ parent =>
    rintro p rfl
    cases ho
  | store entries | weakStore entries => exact ho
  | _ => exact .intro

/-- What can become of an object. A frozen record is emptied only where that is not barred. -/
inductive Change (guard : Guard) : Object → Object → Prop
  | slots (kind : RecordClass) (slots slots' : Slots) (parent : Option ObjectId) :
    Change guard (.record kind slots parent false) (.record kind slots' parent false)
  | emptied (hg : guard .openFrozen = false) (kind : RecordClass) (slots : Slots)
    (parent : Option ObjectId) :
    Change guard (.record kind slots parent true) (.record kind .empty parent true)
  | freeze (kind : RecordClass) (slots : Slots) (parent : Option ObjectId) (frozen : Bool) :
    Change guard (.record kind slots parent frozen) (.record kind slots parent true)
  | bindings (bindings bindings' : Slots) (parent : Option ObjectId) :
    Change guard (.environment bindings parent) (.environment bindings' parent)
  | items (items items' : List Value) : Change guard (.list items) (.list items')
  | entries (entries entries' : Slots) : Change guard (.dict entries) (.dict entries')
  | store {entries entries' : StoreEntries} (c : entries.Change entries') :
    Change guard (.store entries) (.store entries')
  | weakStore {entries entries' : StoreEntries} (c : entries.Change entries') :
    Change guard (.weakStore entries) (.weakStore entries')
  | iterator (source source' : IteratorSource) : Change guard (.iterator source) (.iterator source')
  | husk (entries : StoreEntries) (data : Option Value) : Change guard (.store entries) (.husk data)
  | data (data data' : Option Value) : Change guard (.husk data) (.husk data')
  | awaitable (once : Bool) (held held' : List Value) (body body' : HostProgram) :
    Change guard (.awaitable once held body) (.awaitable once held' body')
  | reclass {c d : HostClass} (hc : c.slots = none) (hd : d.slots = none) :
    Change guard (.instance c) (.instance d)
  | function (f : HostFunction) (behaviour : Behaviour) :
    Change guard (.function f) (.function { f with behaviour })
  | kept (o : Object) (name : String) (v : Option Value) : Change guard o (o.withKept name v)

/-- Only a store becomes a store, by a change of its entries. -/
theorem Change.storeEntries?_inv {guard : Guard} {o o' : Object} (c : Change guard o o')
    {entries : StoreEntries} (he : o'.storeEntries? = some entries) :
    ∃ old, o.storeEntries? = some old ∧ (entries = old ∨ old.Change entries) := by
  cases c with
  | store c | weakStore c => cases he; exact ⟨_, rfl, .inr c⟩
  | kept o name v =>
    have hsame : (o.withKept name v).storeEntries? = o.storeEntries? := by
      unfold withKept
      split <;> rfl
    exact ⟨entries, hsame ▸ he, .inl rfl⟩
  | _ => cases he

end Object

namespace Heap

/-- One change of the heap. An environment comes to stand inside another, which is older, or inside
none, only where that is not barred. -/
inductive Step (guard : Guard) (globals : ObjectId) (h : Heap) : Heap → Prop
  | alloc {o : Object} (ho : o.Fresh globals h) : Step guard globals h (h.alloc o).2
  | put {id : ObjectId} {o o' : Object} (ho : h.object? id = some o) (c : o.Change guard o') :
    Step guard globals h (h.put id o')
  | relink (hg : guard .relink = false) {id : ObjectId} {bindings : Slots}
    {parent parent' : Option ObjectId} (ho : h.object? id = some (.environment bindings parent))
    (hp : ∀ p, parent' = some p → p < id ∧ ∃ inner outer, h.object? p = some (.environment inner outer)) :
    Step guard globals h (h.put id (.environment bindings parent'))
  | attributes (v : Value) {attributes : Table String Value}
    (hnew : ∀ name, attributes.contains name = true → (h.attributes v).contains name = true
      ∨ ∀ o, h.objectOf? v = some o → o.kept? name = none) :
    Step guard globals h (h.putAttributes v attributes)

/-- What is found at a place stands there. -/
theorem lt_size_of_object? {h : Heap} {id : ObjectId} {o : Object} (ho : h.object? id = some o) :
    id < h.size := by
  simp only [object?, Option.map_eq_some_iff] at ho
  obtain ⟨cell, hcell, -⟩ := ho
  exact (Array.getElem?_eq_some_iff.mp hcell).1

/-- Attributes are no part of the objects themselves. -/
theorem object?_putAttributes (h : Heap) (v : Value) (attributes : Table String Value)
    (id : ObjectId) : (h.putAttributes v attributes).object? id = h.object? id := by
  cases v with
  | object j =>
    simp only [putAttributes, object?, Array.getElem?_modify]
    by_cases hj : j = id
    · subst hj
      cases h.cells[j]? <;> simp
    · simp [hj]
  | _ => rfl

/-- Making an object leaves the attributes of all others alone. -/
theorem attributes_alloc {h : Heap} {id : ObjectId} (o : Object) (hid : id < h.size) :
    (h.alloc o).2.attributes (.object id) = h.attributes (.object id) := by
  have hne : id ≠ h.cells.size := Nat.ne_of_lt hid
  simp [attributes, alloc, Array.getElem?_push, hne]

/-- A new object has no attributes of its own. -/
theorem attributes_alloc_self (h : Heap) (o : Object) :
    (h.alloc o).2.attributes (.object h.size) = .empty := by
  simp [attributes, alloc, size]

/-- Replacing an object leaves the attributes alone. -/
theorem attributes_put (h : Heap) (id j : ObjectId) (o : Object) :
    (h.put id o).attributes (.object j) = h.attributes (.object j) := by
  simp only [attributes, put, Array.getElem?_modify]
  by_cases hj : id = j
  · subst hj
    cases h.cells[id]? <;> simp
  · simp [hj]

/-- An object has the attributes that replaced its own. -/
theorem attributes_putAttributes_self {h : Heap} {v : Value} (attributes : Table String Value)
    (hv : v = .undefined ∨ (∃ f, v = .builtin f) ∨ (h.objectOf? v).isSome = true) :
    (h.putAttributes v attributes).attributes v = attributes := by
  obtain rfl | ⟨f, rfl⟩ | hobject := hv
  · simp [putAttributes, Heap.attributes, Table.find?_insert]
  · simp [putAttributes, Heap.attributes, Table.find?_insert]
  · cases v with
    | object id =>
      obtain ⟨o, ho⟩ := Option.isSome_iff_exists.mp hobject
      obtain ⟨cell, hcell, -⟩ := Option.map_eq_some_iff.mp ho
      simp [putAttributes, Heap.attributes, Array.getElem?_modify, hcell]
    | _ => cases hobject

/-- All others keep theirs. -/
theorem attributes_putAttributes_of_ne (h : Heap) {v other : Value} (attributes : Table String Value)
    (hne : other ≠ v) : (h.putAttributes v attributes).attributes other = h.attributes other := by
  cases v with
  | undefined | builtin f =>
    cases other with
    | undefined | builtin g =>
      show ((h.sharedAttributes.insert _ attributes).find? _).getD _ = _
      rw [Table.find?_insert, if_neg hne]
      rfl
    | _ => rfl
  | object id =>
    cases other with
    | object j =>
      have hid : id ≠ j := fun heq => hne (congrArg Value.object heq.symm)
      simp [putAttributes, Heap.attributes, Array.getElem?_modify, hid]
    | _ => rfl
  | _ => rfl

/-- What an object is after it was changed, or after an environment was given another parent. -/
def Becomes (guard : Guard) (h : Heap) (id : ObjectId) (o o' : Object) : Prop :=
  o' = o ∨ o.Change guard o' ∨ guard .relink = false ∧ ∃ bindings parent parent',
    o = .environment bindings parent ∧ o' = .environment bindings parent' ∧
      ∀ p, parent' = some p → p < id ∧ ∃ inner outer, h.object? p = some (.environment inner outer)

/-- A step leaves every object in its place, as it was or changed. -/
theorem Step.object? {guard : Guard} {globals : ObjectId} {h h' : Heap}
    (s : Step guard globals h h') {id : ObjectId} {o : Object} (ho : h.object? id = some o) :
    ∃ o', h'.object? id = some o' ∧ Becomes guard h id o o' := by
  -- A step that replaces an object at a place leaves all others as they are.
  have hput : ∀ {j old new}, h.object? j = some old → Becomes guard h j old new →
      ∃ o', (h.put j new).object? id = some o' ∧ Becomes guard h id o o' := by
    intro j old new hold hbecomes
    rw [object?_put]
    by_cases hj : id = j
    · subst hj
      cases ho.symm.trans hold
      exact ⟨new, by rw [if_pos rfl, ho]; rfl, hbecomes⟩
    · exact ⟨o, by rw [if_neg hj, ho], .inl rfl⟩
  cases s with
  | alloc _ =>
    refine ⟨o, ?_, .inl rfl⟩
    rw [object?_alloc, if_neg (Nat.ne_of_lt (lt_size_of_object? ho)), ho]
  | put hold c => exact hput hold (.inr (.inl c))
  | relink hg hold hp => exact hput hold (.inr (.inr ⟨hg, _, _, _, rfl, rfl, hp⟩))
  | attributes v _ => exact ⟨o, by rw [object?_putAttributes, ho], .inl rfl⟩

/-- What stands in a place after a step stood there before, as it is or as what it became of, or was
just made. -/
theorem Step.object?_inv {guard : Guard} {globals : ObjectId} {h h' : Heap}
    (s : Step guard globals h h') {id : ObjectId} {o : Object} (ho : h'.object? id = some o) :
    (∃ old, h.object? id = some old ∧ Becomes guard h id old o) ∨ o.Fresh globals h := by
  cases hid : h.object? id with
  | some old =>
    obtain ⟨o', ho', hbecomes⟩ := s.object? hid
    cases ho.symm.trans ho'
    exact .inl ⟨old, rfl, hbecomes⟩
  | none =>
    -- Only making an object puts something where nothing stood.
    cases s with
    | alloc hnew =>
      rw [object?_alloc] at ho
      split at ho
      · cases ho
        exact .inr hnew
      · cases hid.symm.trans ho
    | put hold _ | relink _ hold _ =>
      rw [object?_put] at ho
      split at ho
      · rename_i hj
        subst hj
        cases hid.symm.trans hold
      · cases hid.symm.trans ho
    | attributes v _ =>
      rw [object?_putAttributes] at ho
      cases hid.symm.trans ho

end Heap

/-- A property of the machines with a given global environment that everything a run does keeps, as
long as it comes to no detour that is barred. -/
structure Invariant where
  guard : Guard
  globals : ObjectId
  holds : Machine → Prop
  globals_eq : ∀ {m}, holds m → m.globals = globals
  step : ∀ {m h}, holds m → Heap.Step guard globals m.heap h → holds { m with heap := h }
  visit : ∀ {m}, holds m → ∀ current, holds { m with current }
  note : ∀ {m}, holds m → ∀ line, holds { m with trace := m.trace ++ [line] }
  record : ∀ {m}, holds m → ∀ call, holds { m with log := m.log ++ [call] }
  register : ∀ {m}, holds m → ∀ registry, holds { m with registry }
  strictly : ∀ {m}, holds m → ∀ s, holds (m.strictly s)

namespace Invariant

/-- A property of heaps that every step keeps, as one of machines. -/
def ofHeap (guard : Guard) (globals : ObjectId) (K : Heap → Prop)
    (step : ∀ {h h'}, K h → Heap.Step guard globals h h' → K h') : Invariant where
  guard
  globals
  holds m := m.globals = globals ∧ K m.heap
  globals_eq hm := hm.1
  step hm s := ⟨hm.1, step hm.2 s⟩
  visit hm _ := hm
  note hm _ := hm
  record hm _ := hm
  register hm _ := hm
  strictly hm _ := hm

/-- The property that every machine with the global environment has. -/
def trivial (guard : Guard) (globals : ObjectId) : Invariant :=
  ofHeap guard globals (fun _ => True) fun _ _ => .intro

end Invariant

end ChainScript
