import ChainScript.Proofs.Report
import ChainScript.Proofs.StoreEntries

/-!
# Stores and their methods

A store answers through its methods, which it makes on demand, and through the built-in handlers,
which call these methods. `Machine.Serves` says that nothing stands in the way: the store shows its
own methods, its handlers are the built-in ones, and accesses can be traced. A call of a method then
answers as a finite map in order of entry does, and changes the entries as that map changes.

Weak stores have the same handlers and fewer methods, and `Machine.Offers` says the same of a store
of either kind. The two kinds differ in what they let in: a weak store has entries only for keys
that can stand behind a weak reference. `Machine.Keeps` is the part of this that leaves out whether
accesses can be traced.

On a runner that was set up, and after whatever it ran, nothing can stand in the way but attributes
of the store and handlers that are newer than the built-in ones.
-/

namespace ChainScript

open Run (on Yields Leads)

namespace Registry

/-- The handlers through which the methods of a store serve virtual accesses. -/
def storeHandlers : HandlerSet :=
  ⟨some (.builtin .storeGet), some (.builtin .storeSet), some (.builtin .storeDelete)⟩

end Registry

/-- The names under which a store is used: its methods, its size, and the handlers that an object
can bring along. -/
def surfaceNames : List String :=
  "size" :: StoreOperation.all.map StoreOperation.name ++ AccessKind.all.map AccessKind.reservedName

/-- A store with the given entries stands at a place, and is used through its own methods and the
built-in handlers. Accesses can be traced if they are to be. -/
structure Machine.Serves (m : Machine) (store : ObjectId) (entries : StoreEntries) : Prop where
  object : m.heap.object? store = some (.store entries)
  keyed : entries.Keyed
  bare : ∀ name ∈ surfaceNames, (m.heap.attributes (.object store)).find? name = none
  handlers : m.registry.lookup m.heap (.object store) = some Registry.storeHandlers
  readable : (m.debug.or (Flag.read? m.debugVariable)).isSome

/-- Whether a weak store can have a value as a key. -/
def Heap.isWeakKey (h : Heap) (v : Value) : Bool := !h.isPrimitive v && h.isWeakReferable v

/-- A store of either kind stands at a place, and nothing of its own or of the registry comes before
its methods and the built-in handlers. -/
structure Machine.Keeps (m : Machine) (weak : Bool) (store : ObjectId) (entries : StoreEntries) :
    Prop where
  object : m.heap.object? store = some (Store.ofEntries weak entries)
  keyed : entries.Keyed
  taken : weak = true → ∀ pair ∈ entries.pairs, m.heap.isWeakKey pair.1 = true
  bare : ∀ name ∈ surfaceNames, (m.heap.attributes (.object store)).find? name = none
  handlers : m.registry.lookup m.heap (.object store) = some Registry.storeHandlers

/-- A store of either kind stands at a place, and is used through its own methods and the built-in
handlers. Accesses can be traced if they are to be. -/
structure Machine.Offers (m : Machine) (weak : Bool) (store : ObjectId) (entries : StoreEntries) :
    Prop extends m.Keeps weak store entries where
  readable : (m.debug.or (Flag.read? m.debugVariable)).isSome

/-- A store that is not weak offers what it serves. -/
theorem Machine.offers_false_iff {m : Machine} {store : ObjectId} {entries : StoreEntries} :
    m.Offers false store entries ↔ m.Serves store entries :=
  ⟨fun hs => ⟨hs.object, hs.keyed, hs.bare, hs.handlers, hs.readable⟩,
    fun hs => ⟨⟨hs.object, hs.keyed, nofun, hs.bare, hs.handlers⟩, hs.readable⟩⟩

namespace Heap

variable {h : Heap} {weak : Bool} {store : ObjectId} {entries : StoreEntries}

/-- A store is an instance of the class of its kind of stores, and of the class of all objects. -/
theorem isInstance_store (hs : h.object? store = some (Store.ofEntries weak entries)) (c : Class) :
    h.isInstance (.object store) c
      = (c == .object || c == if weak then .weakStore else .store) := by
  cases weak <;> cases c with
  | record c => cases c <;> simp [isInstance, objectOf?, hs, Store.ofEntries]
  | _ => simp [isInstance, isCallable, objectOf?, hs, Store.ofEntries]

/-- Which handlers serve a store does not depend on its entries, nor on the rest of the heap. -/
theorem lookup_store {h' : Heap} {entries' : StoreEntries} (r : Registry)
    (hs : h.object? store = some (Store.ofEntries weak entries))
    (hs' : h'.object? store = some (Store.ofEntries weak entries')) :
    r.lookup h' (.object store) = r.lookup h (.object store) := by
  simp only [Registry.lookup, isInstance_store hs, isInstance_store hs']

/-- What can be a key of a weak store is there, if it is an object. -/
theorem exists_of_isWeakKey {id : ObjectId} (hk : h.isWeakKey (.object id) = true) :
    ∃ o, h.object? id = some o := by
  cases ho : h.object? id with
  | some o => exact ⟨o, rfl⟩
  | none => simp [isWeakKey, isWeakReferable, ho] at hk

/-- Whether a value can be a key depends on what object it names. -/
theorem isWeakKey_congr {h' : Heap} {v : Value} (hv : ∀ id, v = .object id →
    h'.object? id = h.object? id ∨ ∃ weak entries entries',
      h.object? id = some (Store.ofEntries weak entries)
        ∧ h'.object? id = some (Store.ofEntries weak entries')) :
    h'.isWeakKey v = h.isWeakKey v := by
  cases v with
  | object id =>
    rcases hv id rfl with hsame | ⟨weak, entries, entries', ho, ho'⟩
    · simp [isWeakKey, isPrimitive, isWeakReferable, hsame]
    · cases weak <;> simp [isWeakKey, isPrimitive, isWeakReferable, ho, ho', Store.ofEntries]
  | _ => rfl

/-- What can be a key still can be one after a new object was made. -/
theorem isWeakKey_alloc (o : Object) {v : Value} (hv : h.isWeakKey v = true) :
    (h.alloc o).2.isWeakKey v = true := by
  rw [isWeakKey_congr, hv]
  rintro id rfl
  obtain ⟨old, hold⟩ := exists_of_isWeakKey hv
  rw [object?_alloc, if_neg (Nat.ne_of_lt (lt_size_of_object? hold))]
  exact .inl rfl

/-- The entries of a store do not matter for what can be a key. -/
theorem isWeakKey_put (hs : h.object? store = some (Store.ofEntries weak entries))
    (entries' : StoreEntries) (v : Value) :
    (h.put store (Store.ofEntries weak entries')).isWeakKey v = h.isWeakKey v := by
  refine isWeakKey_congr ?_
  rintro id rfl
  rw [object?_put]
  by_cases hid : id = store
  · subst hid
    rw [if_pos rfl, hs]
    exact .inr ⟨weak, entries, entries', rfl, rfl⟩
  · rw [if_neg hid]
    exact .inl rfl

end Heap

/-- Neither the current node nor the trace matters. -/
theorem Machine.Keeps.visit {m : Machine} {weak : Bool} {store : ObjectId} {entries : StoreEntries}
    (hs : m.Keeps weak store entries) (current : Option Node) (trace : List String) :
    Keeps { m with current, trace } weak store entries :=
  ⟨hs.object, hs.keyed, hs.taken, hs.bare, hs.handlers⟩

namespace Machine.Offers

variable {m : Machine} {weak : Bool} {store : ObjectId} {entries : StoreEntries}

/-- Going on to another node or adding to the trace leaves the store as it is. -/
theorem visit (hs : m.Offers weak store entries) (current : Option Node) (trace : List String) :
    Offers { m with current, trace } weak store entries :=
  ⟨hs.toKeeps.visit current trace, hs.readable⟩

/-- New objects do not matter either. -/
theorem alloc (hs : m.Offers weak store entries) (o : Object) :
    Offers { m with heap := (m.heap.alloc o).2 } weak store entries := by
  have hlt := Heap.lt_size_of_object? hs.object
  have hobject : (m.heap.alloc o).2.object? store = some (Store.ofEntries weak entries) := by
    rw [Heap.object?_alloc, if_neg (Nat.ne_of_lt hlt), hs.object]
  refine ⟨⟨hobject, hs.keyed, fun hweak pair hpair => ?_, fun name hname => ?_, ?_⟩, hs.readable⟩
  · exact Heap.isWeakKey_alloc o (hs.taken hweak pair hpair)
  · show ((m.heap.alloc o).2.attributes _).find? name = none
    rw [Heap.attributes_alloc o hlt]
    exact hs.bare name hname
  · show m.registry.lookup (m.heap.alloc o).2 _ = _
    rw [Heap.lookup_store m.registry hs.object hobject]
    exact hs.handlers

/-- The entries may become others that are keyed, and that are for keys which the store takes. -/
theorem put (hs : m.Offers weak store entries) {entries' : StoreEntries} (hkeyed : entries'.Keyed)
    (htaken : weak = true → ∀ pair ∈ entries'.pairs, m.heap.isWeakKey pair.1 = true) :
    Offers { m with heap := m.heap.put store (Store.ofEntries weak entries') } weak store
      entries' := by
  have hobject : (m.heap.put store (Store.ofEntries weak entries')).object? store
      = some (Store.ofEntries weak entries') := by
    rw [Heap.object?_put, if_pos rfl, hs.object]
    rfl
  refine ⟨⟨hobject, hkeyed, fun hweak pair hpair => ?_, fun name hname => ?_, ?_⟩, hs.readable⟩
  · rw [Heap.isWeakKey_put hs.object]
    exact htaken hweak pair hpair
  · show ((m.heap.put store _).attributes _).find? name = none
    rw [Heap.attributes_put]
    exact hs.bare name hname
  · show m.registry.lookup (m.heap.put store _) _ = _
    rw [Heap.lookup_store m.registry hs.object hobject]
    exact hs.handlers

end Machine.Offers

/-! ## Machines that stores can serve on -/

/-- The entries of every store are keyed, and it is settled whether accesses are traced. -/
structure Machine.Ready (m : Machine) : Prop where
  keyed : m.heap.StoresKeyed
  traced : m.debug.isSome

namespace Machine.Ready

/-- Being ready, as an invariant of runs. -/
def invariant (globals : ObjectId) : Invariant where
  guard := .none
  globals
  holds m := m.globals = globals ∧ m.Ready
  globals_eq hm := hm.1
  step hm s := ⟨hm.1, hm.2.keyed.step s, hm.2.traced⟩
  visit hm _ := ⟨hm.1, hm.2.keyed, hm.2.traced⟩
  note hm _ := ⟨hm.1, hm.2.keyed, hm.2.traced⟩
  record hm _ := ⟨hm.1, hm.2.keyed, hm.2.traced⟩
  register hm _ := ⟨hm.1, hm.2.keyed, hm.2.traced⟩
  strictly hm _ := ⟨hm.1, hm.2.keyed, hm.2.traced⟩

variable {m : Machine}

/-- A machine stays ready whatever is run on it. -/
theorem machines (hm : m.Ready) (uses : List Use) : (Use.machines m uses).Ready :=
  (Use.holds_machines (invariant m.globals) ⟨rfl, hm⟩ (Use.straight_none m uses)).2

/-- On a ready machine a store serves where its attributes hide nothing and the built-in handlers
are the newest ones that match it. -/
theorem serves (hm : m.Ready) {store : ObjectId} {entries : StoreEntries}
    (hobject : m.heap.object? store = some (.store entries))
    (hbare : ∀ name ∈ surfaceNames, (m.heap.attributes (.object store)).find? name = none)
    (hhandlers : m.registry.lookup m.heap (.object store) = some Registry.storeHandlers) :
    m.Serves store entries where
  object := hobject
  keyed := hm.keyed store _ entries hobject rfl
  bare := hbare
  handlers := hhandlers
  readable := by
    rw [Option.isSome_or, hm.traced]
    rfl

/-- There are no stores on a machine that is not set up. -/
theorem blank : Machine.blank.Ready := by
  refine ⟨fun id o entries ho he => ?_, rfl⟩
  have hnone : ∀ cell ∈ Machine.blank.heap.cells.toList, cell.object.storeEntries? = none := by
    decide
  obtain ⟨cell, hcell, rfl⟩ := Option.map_eq_some_iff.mp ho
  rw [hnone cell (Array.mem_toList_iff.mpr (Array.mem_of_getElem? hcell))] at he
  cases he

end Machine.Ready

/-- A runner that was set up is ready, whatever its settings are. -/
theorem Runner.ready_start (config : Config) : (on (start config) Machine.blank).2.Ready :=
  have hstart := holds_start .none Heap.StoresKeyed.step (fun _ hk => hk.put _ rfl)
    Machine.Ready.blank.keyed config
  ⟨hstart.1, hstart.2⟩

/-! ## Methods -/

/-- A call of a method of a store. -/
inductive StoreCall where
  | get (key : Value) (default : Option Value)
  | set (key value : Value)
  | has (key : Value)
  | delete (key : Value)
  | clear

namespace StoreCall

/-- The method that is called. -/
def operation : StoreCall → StoreOperation
  | .get .. => .get
  | .set .. => .set
  | .has _ => .has
  | .delete _ => .delete
  | .clear => .clear

/-- The arguments of the call. -/
def arguments : StoreCall → List Value
  | .get key default => key :: default.toList
  | .set key value => [key, value]
  | .has key | .delete key => [key]
  | .clear => []

/-- The key that the call is about, if there is one, is no failed number. -/
def Valid : StoreCall → Prop
  | .get key _ | .set key _ | .has key | .delete key => key.IsKey
  | .clear => True

/-- The key that the call is about. -/
def key? : StoreCall → Option Value
  | .get key _ | .set key _ | .has key | .delete key => some key
  | .clear => none

/-- What a finite map answers. Entering a value answers the store itself. -/
def answer (store : Value) (pairs : Pairs) : StoreCall → Value
  | .get key default => (pairs.value? key).getD (default.getD .undefined)
  | .set .. => store
  | .has key | .delete key => .bool (pairs.value? key).isSome
  | .clear => .null

/-- What becomes of a finite map. -/
def next (pairs : Pairs) : StoreCall → Pairs
  | .get .. | .has _ => pairs
  | .set key value => pairs.enter key value
  | .delete key => pairs.remove key
  | .clear => []

end StoreCall

/-- A place holds a method of a store, and nothing was set on it. -/
structure Machine.Shows (m : Machine) (id store : ObjectId) (operation : StoreOperation) : Prop where
  object : m.heap.object? id = some (.method (.store store operation))
  bare : m.heap.attributes (.object id) = .empty

/-- The machine after something was done to a store: it serves the store with what has become of the
pairs. -/
def Machine.ServesPairs (m : Machine) (store : ObjectId) (pairs : Pairs) : Prop :=
  ∃ entries : StoreEntries, m.Serves store entries ∧ entries.pairs = pairs

/-- The same for a store of either kind. -/
def Machine.OffersPairs (m : Machine) (weak : Bool) (store : ObjectId) (pairs : Pairs) : Prop :=
  ∃ entries : StoreEntries, m.Offers weak store entries ∧ entries.pairs = pairs

/-- The store is offered on a machine that has made one of its methods since its heap was the given
one. -/
structure Machine.OffersMade (m : Machine) (h : Heap) (weak : Bool) (store : ObjectId)
    (entries : StoreEntries) (operation : StoreOperation) : Prop where
  offers : m.Offers weak store entries
  heap : m.heap = (h.alloc (.method (.store store operation))).2

namespace Machine.Keeps

variable {m : Machine} {weak : Bool} {store : ObjectId} {entries : StoreEntries}

/-- The store finds a name that is not among its attributes with what its type gives it. -/
theorem attributeGet (hs : m.Keeps weak store entries) {name : String}
    (hname : name ∈ surfaceNames) :
    on (Attribute.get (.object store) name) m
      = match (Store.ofEntries weak entries).given? store name with
        | none => (.ok none, m)
        | some given => on (do return some (← given.toValue)) m := by
  have hkept : (Store.ofEntries weak entries).kept? name = none := by cases weak <;> rfl
  rw [Attribute.get, Run.on_bind, Run.on_heap]
  simp only [hs.bare name hname, hs.object, hkept]
  cases (Store.ofEntries weak entries).given? store name with
  | some given => rfl
  | none => cases weak <;> rfl

/-- The store has no handlers of its own, so it is served by the built-in ones. -/
theorem handler (hs : m.Keeps weak store entries) (kind : AccessKind) {f : Value}
    (hf : Registry.storeHandlers.forKind kind = some f) :
    on (Resolver.handler (.object store) kind) m = (.ok ⟨f, some (.object store)⟩, m) := by
  have hname : kind.reservedName ∈ surfaceNames := by cases kind <;> decide
  have hgiven : (Store.ofEntries weak entries).given? store kind.reservedName = none := by
    cases weak <;> cases kind <;> rfl
  have hget : on (Attribute.get (.object store) kind.reservedName) m = (.ok none, m) := by
    rw [hs.attributeGet hname, hgiven]
  have hown : on (Resolver.own (.object store) kind) m = (.ok (none, false), m) := by
    rw [Resolver.own, Run.on_bind, Run.on_heap]
    simp only [Heap.objectOf?, hs.object]
    cases weak <;> exact (Run.on_bind_ok hget).trans rfl
  have hself : on (Resolver.selfAttached (.object store) kind) m = (.ok none, m) := by
    rw [Resolver.selfAttached, Run.on_bind_ok hown]
    rfl
  rw [Resolver.handler, Run.on_bind_ok hself]
  simp only [Run.on_bind, Run.on_get, hs.handlers, Option.bind_some, hf]
  rfl

end Machine.Keeps

namespace Machine.Offers

variable {m : Machine} {weak : Bool} {store : ObjectId} {entries : StoreEntries}

/-- The entries of a store are found. -/
theorem entriesOf (hs : m.Offers weak store entries) :
    on (Store.entriesOf store) m = (.ok (entries, weak), m) := by
  have he : Store.entries? m.heap store = some (entries, weak) := by
    cases weak <;> simp [Store.entries?, hs.object, Store.ofEntries]
  rw [Store.entriesOf, Run.on_bind, Run.on_heap]
  simp only [he]
  rfl

/-- A weak store lets a key in that can be one. -/
theorem on_checkWeakKey {key : Value} (hk : m.heap.isWeakKey key = true) :
    on (Store.checkWeakKey key) m = (.ok (), m) := by
  rw [Heap.isWeakKey, Bool.and_eq_true, Bool.not_eq_true'] at hk
  rw [Store.checkWeakKey, Run.on_bind, Run.on_heap]
  simp only [hk.1, hk.2, Bool.false_eq_true, if_false, Bool.not_true]
  rfl

/-- A method of the store answers, and changes the entries, as the finite map does. Of a weak store
that is so for the keys that it takes. -/
theorem callMethod (hs : m.Offers weak store entries) (c : StoreCall) (hc : c.Valid)
    (hkey : weak = true → ∀ key, c.key? = some key → m.heap.isWeakKey key = true) :
    Yields (Store.callMethod store c.operation c.arguments) m fun answer m' =>
      answer = c.answer (.object store) entries.pairs
        ∧ m'.OffersPairs weak store (c.next entries.pairs) := by
  -- Only set, delete and clear change the entries; the others answer from them.
  cases c with
  | get key default =>
    have hvalue := StoreEntries.value?_eq hs.keyed hc
    cases default with
    | none => exact .after hs.entriesOf (.pure ⟨by rw [hvalue]; rfl, entries, hs, rfl⟩)
    | some v => exact .after hs.entriesOf (.pure ⟨by rw [hvalue]; rfl, entries, hs, rfl⟩)
  | set key value =>
    have hpairs := StoreEntries.pairs_put hs.keyed hc value
    have hset : on (Store.set store key value) m = (.ok (),
        { m with heap := m.heap.put store (Store.ofEntries weak (entries.put key value)) }) := by
      rw [Store.set, Run.on_bind_ok hs.entriesOf]
      cases weak with
      | true => exact (Run.on_bind_ok (on_checkWeakKey (hkey rfl key rfl))).trans rfl
      | false => rfl
    refine .after hset (.pure ⟨rfl, _, hs.put (hs.keyed.put key value) ?_, hpairs⟩)
    intro hweak pair hpair
    rw [hpairs] at hpair
    rcases Pairs.mem_enter hpair with rfl | hold
    · exact hkey hweak key rfl
    · exact hs.taken hweak pair hold
  | has key =>
    have hvalue := StoreEntries.value?_eq hs.keyed hc
    have hhas : on (Store.has store key) m = (.ok (entries.value? key).isSome, m) := by
      rw [Store.has, Run.on_bind_ok hs.entriesOf]
      rfl
    exact .after hhas (.pure ⟨by rw [hvalue]; rfl, entries, hs, rfl⟩)
  | delete key =>
    have hvalue := StoreEntries.value?_eq hs.keyed hc
    have hpairs := StoreEntries.pairs_erase hs.keyed hc
    have hdelete : on (Store.delete store key) m = (.ok (entries.value? key).isSome, { m with
        heap := m.heap.put store (Store.ofEntries weak (Table.erase entries (storeKey key))) }) := by
      rw [Store.delete, Run.on_bind_ok hs.entriesOf]
      rfl
    refine .after hdelete (.pure ⟨by rw [hvalue]; rfl, _, hs.put (hs.keyed.erase key) ?_, hpairs⟩)
    intro hweak pair hpair
    rw [hpairs] at hpair
    exact hs.taken hweak pair (List.mem_filter.mp hpair).1
  | clear =>
    have hclear : on (Store.clear store) m
        = (.ok (), { m with heap := m.heap.put store (Store.ofEntries weak .empty) }) := by
      rw [Store.clear, Run.on_bind_ok hs.entriesOf]
      rfl
    exact .after hclear (.pure ⟨rfl, _, hs.put .empty (fun _ _ hpair => nomatch hpair), rfl⟩)

/-- The store makes its methods on demand. -/
theorem method (hs : m.Offers weak store entries) (operation : StoreOperation)
    (hop : weak = true → operation ∈ StoreOperation.weak) :
    Yields (Attribute.get (.object store) operation.name) m fun found m' =>
      m'.OffersMade m.heap weak store entries operation
        ∧ ∃ id, found = some (.object id) ∧ m'.Shows id store operation := by
  have hname : operation.name ∈ surfaceNames := by cases operation <;> decide
  have hgiven : (Store.ofEntries weak entries).given? store operation.name
      = some (.method (.store store operation)) := by
    cases weak with
    | true =>
      have hweak := hop rfl
      cases operation <;> first | rfl | exact absurd hweak (by decide)
    | false => cases operation <;> rfl
  refine ⟨some (.object m.heap.size), { m with heap := _ }, ?_,
    ⟨hs.alloc (.method (.store store operation)), rfl⟩, _, rfl, ?_, ?_⟩
  · rw [hs.attributeGet hname, hgiven]
    rfl
  · exact (Heap.object?_alloc ..).trans (if_pos rfl)
  · exact Heap.attributes_alloc_self _ _

/-- Whether accesses are traced is known. -/
theorem tracing (hs : m.Offers weak store entries) : ∃ b, on Run.tracing m = (.ok b, m) := by
  have hr := hs.readable
  rw [Run.tracing]
  simp only [Run.on_bind, Run.on_get]
  cases hd : m.debug with
  | some b => exact ⟨b, rfl⟩
  | none =>
    rw [hd] at hr
    cases hf : Flag.read? m.debugVariable with
    | some b => exact ⟨b, rfl⟩
    | none => rw [hf] at hr; cases hr

/-- A note whose parts can be put into words adds to the trace at most. -/
theorem note (hs : m.Offers weak store entries) (parts : Run (List String)) {words : List String}
    (hp : on parts m = (.ok words, m)) :
    ∃ trace, on (Run.note parts) m = (.ok (), { m with trace }) := by
  obtain ⟨b, hb⟩ := hs.tracing
  rw [Run.note, Run.on_bind_ok hb]
  cases b with
  | false => exact ⟨m.trace, rfl⟩
  | true =>
    refine ⟨m.trace ++ [" ".intercalate ("[DBG]" :: words)], ?_⟩
    simp only [if_true]
    rw [Run.on_bind_ok hp]
    rfl

end Machine.Offers

/-- Calling a method that a store shows is calling the method of the store. -/
theorem Machine.Shows.on_invoke {m : Machine} {id store : ObjectId} {operation : StoreOperation}
    {weak : Bool} {entries : StoreEntries} (hid : m.Shows id store operation)
    (hs : m.heap.object? store = some (Store.ofEntries weak entries)) (arguments : List Value)
    (depth : Nat) :
    on (ChainScript.invoke (depth + 1) (.object id) arguments) m
      = on (Store.callMethod store operation arguments) m := by
  rw [ChainScript.invoke, guarded, Run.on_bind_ok (Run.on_heap m)]
  simp only [hid.object]
  rw [Invoke.method, Store.callBound, Run.on_bind_ok (Run.on_heap m), hs]
  cases weak <;> rfl

/-- The built-in functions reach the store through the method that it shows. -/
theorem Machine.Offers.callShown {m : Machine} {weak : Bool} {store : ObjectId}
    {entries : StoreEntries} (hs : m.Offers weak store entries) (operation : StoreOperation)
    (hop : weak = true → operation ∈ StoreOperation.weak) (arguments : List Value) (depth : Nat) :
    Leads (Invoke.callShown (ChainScript.invoke (depth + 1)) (.object store) operation.name
      arguments) m (Store.callMethod store operation arguments)
      fun m' => m'.OffersMade m.heap weak store entries operation := by
  refine (hs.method operation hop).leads ?_
  rintro _ m' ⟨hs', id, rfl, hid⟩
  exact ⟨m', hs', hid.on_invoke hs'.offers.object arguments depth⟩

end ChainScript
