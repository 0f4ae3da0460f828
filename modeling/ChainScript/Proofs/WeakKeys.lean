import ChainScript.Proofs.StoreCourse
import ChainScript.Proofs.Sweep
import ChainScript.Runner

/-!
# The keys of a weak store

A weak store takes as keys what can stand behind a weak reference, and is told apart from a store of
any other kind by two things. It refuses every other key: entering a value under one is a fault, and
nothing is ever found under it. And a collection of what is no longer reachable takes the entries of
the keys that are not alive away, and leaves all others.
-/

namespace ChainScript

open Run (on Yields)

/-! ## Which keys a weak store takes -/

namespace Heap

variable {h : Heap} {key : Value}

/-- What can be a key of a weak store is no number, so no other value is the same key. -/
theorem sole_of_isWeakKey (hk : h.isWeakKey key = true) : key.Sole := by
  intro v
  cases key with
  | float x => simp [isWeakKey, isPrimitive] at hk
  | _ => simp [Value.sameKey]

/-- What can be the key of a weak store is a key. -/
theorem isKey_of_isWeakKey (hk : h.isWeakKey key = true) : key.IsKey := by
  rintro rfl
  simp [isWeakKey, isPrimitive] at hk

/-- It is its own normal form, and that of no other value. -/
theorem storeKey_of_isWeakKey (hk : h.isWeakKey key = true) (v : Value) :
    storeKey v = key ↔ v = key := by
  cases v with
  | float x =>
    refine iff_of_false ?_ ?_
    · rintro rfl
      simp only [storeKey] at hk
      split at hk <;> simp [isWeakKey, isPrimitive] at hk
    · rintro rfl
      simp [isWeakKey, isPrimitive] at hk
  | _ => exact Iff.rfl

/-- What can be a key can be one whatever entries are kept. -/
theorem isWeakKey_keeping (alive : ObjectId → Bool) (v : Value) :
    (h.keeping alive).isWeakKey v = h.isWeakKey v := by
  refine isWeakKey_congr ?_
  rintro id rfl
  rw [object?_keeping]
  cases ho : h.object? id with
  | none => exact .inl rfl
  | some o =>
    cases o with
    | weakStore entries => exact .inr ⟨true, entries, entries.keeping alive, rfl, rfl⟩
    | _ => exact .inl rfl

/-- A value that is there, and that a weak store cannot have as a key: a primitive, or an object
that cannot stand behind a weak reference. -/
structure Refuses (h : Heap) (key : Value) : Prop where
  refused : h.isWeakKey key = false
  isThere : ∀ id, key = .object id → id < h.size

/-- It cannot be a key after new objects were made either. -/
theorem Refuses.alloc (hr : h.Refuses key) (o : Object) : (h.alloc o).2.Refuses key := by
  refine ⟨?_, fun id hid => ?_⟩
  · rw [isWeakKey_congr, hr.refused]
    intro id hid
    rw [object?_alloc, if_neg (Nat.ne_of_lt (hr.isThere id hid))]
    exact .inl rfl
  · exact Nat.lt_of_lt_of_le (hr.isThere id hid) (by simp [Heap.alloc, size])

end Heap

/-- A weak store that was just made is offered, where the built-in handlers were the last to be
attached. -/
theorem Machine.offers_made {m : Machine} {store : ObjectId}
    (hobject : m.heap.object? store = some (.weakStore .empty))
    (hattributes : m.heap.attributes (.object store) = .empty) (hregistry : m.registry = .standard)
    (hreadable : (m.debug.or (Flag.read? m.debugVariable)).isSome) :
    m.Offers true store .empty where
  object := hobject
  keyed := .empty
  taken _ _ hpair := nomatch hpair
  bare name _ := by rw [hattributes]; rfl
  handlers := by
    have hinstance := @Heap.isInstance_store _ true _ _ hobject
    rw [hregistry]
    simp only [Registry.lookup, hinstance]
    decide +kernel
  readable := hreadable

/-! ## Refusals -/

namespace StoreCall

/-- What a weak store answers about a key that it cannot have: there is nothing under it, and
nothing can be entered. -/
def refusal : StoreCall → Except FaultKind Value
  | .get _ default => .ok (default.getD .undefined)
  | .set .. => .error .typeError
  | .has _ | .delete _ => .ok (.bool false)
  | .clear => .ok .null

/-- A call about a key is one that a weak store has a method for. -/
theorem operation_weak_of_key? {c : StoreCall} {key : Value} (hkey : c.key? = some key) :
    c.operation ∈ StoreOperation.weak := by
  cases c with
  | clear => cases hkey
  | _ => simp [operation, StoreOperation.weak]

end StoreCall

namespace StoreUse

/-- What a program sees that uses a weak store about a key that it cannot have. A null or undefined
left operand is refused before any store is asked, with a fault that is a type error of its own
kind. -/
def refusal : StoreUse → Except FaultKind Value
  | .read key => if key.isNullish then .error .invalidReferenceTarget else .ok .undefined
  | .write key _ => if key.isNullish then .error .invalidReferenceTarget else .error .typeError
  | .remove key => if key.isNullish then .error .invalidReferenceTarget else .ok (.bool true)
  | .call c => c.refusal
  | .size => .ok .undefined

end StoreUse

/-- A key can be put into words for its refusal: a primitive key is quoted, and of any other the
refusal names no more than the type. -/
def Heap.CanName (h : Heap) (key : Value) : Prop :=
  h.isPrimitive key = true → ∃ text, h.inspect key = .ok text

/-- A key can be put into words where `set` refuses it: on the heap with the method that was made
for the call. -/
def Machine.CanName (m : Machine) (store : ObjectId) (key : Value) : Prop :=
  (m.heap.alloc (.method (.store store .set))).2.CanName key

/-- A key that is no object can always be put into words. -/
theorem Heap.canName_of_plain (h : Heap) {key : Value} (hkey : key.Plain) : h.CanName key :=
  fun _ => h.inspect_plain hkey

/-- So can a symbol that is described by such a value. -/
theorem Heap.canName_of_described {h : Heap} {id : ObjectId} {description : Value}
    (ho : h.object? id = some (.symbol (some description))) (hd : description.Plain) :
    h.CanName (.object id) := by
  intro _
  obtain ⟨depth, hdepth⟩ := exists_printDepth
  simp only [inspect, printer, hdepth, inspectWithin, ho]
  cases description with
  | type c => exact hd.elim
  | builtin f => exact hd.elim
  | object id => exact hd.elim
  | _ => exact ⟨_, rfl⟩

namespace Machine.Offers

variable {m : Machine} {store : ObjectId} {entries : StoreEntries} {key : Value}

/-- A weak store has no entry for a key that it refuses. -/
theorem ne_of_refused (hs : m.Offers true store entries) (hr : m.heap.isWeakKey key = false) :
    ∀ entry ∈ entries.entries, entry.1 ≠ storeKey key := by
  intro entry hentry heq
  have hpair : (entry.2.label, entry.2.value) ∈ entries.pairs := by
    rw [StoreEntries.pairs_eq]
    exact List.mem_map_of_mem hentry
  have hlabel := hs.taken rfl _ hpair
  have hkeyed := hs.keyed entry hentry
  have hsame : entry.2.label = key := by
    rw [heq, (Heap.storeKey_of_isWeakKey hlabel _).mpr rfl] at hkeyed
    exact ((Heap.storeKey_of_isWeakKey hlabel key).mp hkeyed).symm
  rw [hsame, hr] at hlabel
  cases hlabel

/-- So it finds nothing under it. -/
theorem value?_of_refused (hs : m.Offers true store entries) (hr : m.heap.isWeakKey key = false) :
    entries.value? key = none := by
  have hnone : entries.find? (storeKey key) = none := by
    rw [Table.find?, List.lookup_eq_none_iff]
    intro entry hentry
    have hne := hs.ne_of_refused hr entry hentry
    simpa using fun heq : storeKey key = entry.1 => hne heq.symm
  rw [StoreEntries.value?, hnone]
  rfl

/-- Nothing can be entered under it. -/
theorem on_checkWeakKey_refused (hr : m.heap.isWeakKey key = false) :
    ∃ fault : Fault, on (Store.checkWeakKey key) m = (.error (.fault fault), m)
      ∧ (m.heap.CanName key → fault.kind = .typeError) := by
  cases hp : m.heap.isPrimitive key with
  | true =>
    refine ⟨(Fault.weakPrimitive key).arising m.heap, ?_, fun hname => ?_⟩
    · rw [Store.checkWeakKey, Run.on_bind, Run.on_heap]
      simp only [hp, if_true, Run.on_fail]
    · obtain ⟨text, htext⟩ := hname hp
      have hmessage : (Fault.weakPrimitive key).message m.heap
          = .ok (some ("invalid value used as weak store key: " ++ text)) := by
        simp only [Fault.message, htext]
        rfl
      rw [Fault.arising_of_message hmessage]
      rfl
  | false =>
    have hweak : m.heap.isWeakReferable key = false := by
      rw [Heap.isWeakKey, hp] at hr
      simpa using hr
    refine ⟨.weakUnsupported key, ?_, fun _ => rfl⟩
    rw [Store.checkWeakKey, Run.on_bind, Run.on_heap]
    simp only [hp, hweak, Bool.false_eq_true, if_false, Bool.not_false, if_true, Run.on_fail]
    rfl

/-- A call about a key that the store refuses leaves every entry as it is. -/
theorem callMethod_refused (hs : m.Offers true store entries) (hr : m.heap.isWeakKey key = false)
    (c : StoreCall) (hkey : c.key? = some key) :
    ∃ stop m', on (Store.callMethod store c.operation c.arguments) m = (stop, m')
      ∧ m'.OffersPairs true store entries.pairs
      ∧ ((c.operation = .set → m.heap.CanName key) → StoreUse.seen? stop = some c.refusal) := by
  have hvalue := hs.value?_of_refused hr
  cases c with
  | get k default =>
    cases hkey
    have hget : ∀ default, on (Store.get store key default) m = (.ok default, m) := by
      intro default
      rw [Store.get, Run.on_bind_ok hs.entriesOf]
      simp only [hvalue]
      rfl
    cases default with
    | none => exact ⟨_, m, hget .undefined, ⟨entries, hs, rfl⟩, fun _ => rfl⟩
    | some v => exact ⟨_, m, hget v, ⟨entries, hs, rfl⟩, fun _ => rfl⟩
  | set k value =>
    cases hkey
    obtain ⟨fault, hfault, hkind⟩ := on_checkWeakKey_refused hr
    have hset : on (Store.set store key value) m = (.error (.fault fault), m) := by
      rw [Store.set, Run.on_bind_ok hs.entriesOf]
      exact Run.on_bind_error hfault
    refine ⟨_, m, Run.on_bind_error hset, ⟨entries, hs, rfl⟩, fun hname => ?_⟩
    exact congrArg (fun kind => some (Except.error kind)) (hkind (hname rfl))
  | has k =>
    cases hkey
    have hhas : on (Store.has store key) m = (.ok false, m) := by
      rw [Store.has, Run.on_bind_ok hs.entriesOf]
      simp only [hvalue]
      rfl
    exact ⟨_, m, Run.on_bind_ok hhas, ⟨entries, hs, rfl⟩, fun _ => rfl⟩
  | delete k =>
    cases hkey
    -- The store is written back, but there was nothing to erase.
    have hsame : Table.erase entries (storeKey key) = entries :=
      Table.eq_of_entries (List.filter_eq_self.mpr fun entry hentry => by
        simpa using hs.ne_of_refused hr entry hentry)
    have hdelete : on (Store.delete store key) m = (.ok false,
        { m with heap := m.heap.put store (Store.ofEntries true entries) }) := by
      rw [Store.delete, Run.on_bind_ok hs.entriesOf]
      simp only [hvalue, hsame]
      rfl
    exact ⟨_, _, Run.on_bind_ok hdelete, ⟨entries, hs.put hs.keyed hs.taken, rfl⟩, fun _ => rfl⟩
  | clear => cases hkey

/-- A use about a key that the store refuses leaves every entry as it is, and is refused if it
enters a value. -/
theorem use_refused (hs : m.Offers true store entries) (hr : m.heap.Refuses key) {use : StoreUse}
    (hkey : use.key? = some key) (depth : Nat) (env : Value) :
    ∃ stop m', on (Eval.eval (invoke (depth + 2)) env (use.node (.object store))) m = (stop, m')
      ∧ m'.OffersPairs true store entries.pairs
      ∧ (m.CanName store key → StoreUse.seen? stop = some use.refusal) := by
  obtain ⟨c, hc, hck⟩ := Option.bind_eq_some_iff.mp hkey
  -- A null or undefined left operand does not come as far as the store.
  by_cases hbase : ∀ key, use.base? = some key → key.isNullish = false
  · have hop := StoreCall.operation_weak_of_key? hck
    obtain ⟨m₁, hm₁, hleads⟩ := StoreUse.leads_use hs hc (fun _ => hop) hbase depth env
    -- The call made a method on the heap, which is no key that was refused before.
    have hr₁ : m₁.heap.Refuses key := hm₁.heap ▸ hr.alloc _
    obtain ⟨stop, m', hcall, hpairs, hseen⟩ := hm₁.offers.callMethod_refused hr₁.refused c hck
    have hrest : on (do return use.result (← Store.callMethod store c.operation c.arguments)) m₁
        = (stop.map fun v => use.result v, m') := by
      rw [Run.on_bind, hcall]
      cases stop <;> rfl
    refine ⟨_, m', hleads.trans hrest, hpairs, fun hname => ?_⟩
    have hstop := hseen fun hset => by
      rw [hm₁.heap, hset]
      exact hname
    have hmap : StoreUse.seen? (stop.map fun v => use.result v)
        = (StoreUse.seen? stop).map (Except.map fun v => use.result v) := by
      rcases stop with (_ | _) | _ <;> rfl
    rw [hmap, hstop]
    cases StoreUse.about_of_key? hkey with
    | get | set | has | delete => cases hc; rfl
    | read | write | remove =>
      cases hc
      simp only [StoreUse.refusal, hbase _ rfl, Bool.false_eq_true, if_false]
      rfl
  · simp only [not_forall, Bool.not_eq_false] at hbase
    obtain ⟨base, hbase, hnullish⟩ := hbase
    refine ⟨_, _, StoreUse.on_eval_of_nullish hbase hnullish _ env store m,
      ⟨entries, hs.visit _ m.trace, rfl⟩, fun _ => ?_⟩
    cases StoreUse.about_of_key? hkey with
    | get | set | has | delete => cases hbase
    | read | write | remove =>
      cases hbase
      simp only [StoreUse.refusal, hnullish, if_true]
      rfl

/-! ## Collections -/

/-- A collection takes the entries away whose keys are not alive, and leaves the store as it is
otherwise. -/
theorem sweep (hs : m.Offers true store entries) (held : List Value) :
    ∃ alive : ObjectId → Bool, (∀ id, alive id = true ↔ m.heap.Alive (m.roots ++ held) id)
      ∧ (m.sweep held).OffersPairs true store
        (entries.pairs.filter fun pair => pair.1.keptBy alive) := by
  obtain ⟨alive, halive, hsweep⟩ := m.heap.sweep_eq (m.roots ++ held)
  refine ⟨alive, halive, entries.keeping alive, ?_, ?_⟩
  · have hobject : (m.heap.keeping alive).object? store
        = some (Store.ofEntries true (entries.keeping alive)) := by
      rw [Heap.object?_keeping, hs.object]
      rfl
    have hsub : (entries.keeping alive).pairs ⊆ entries.pairs := by
      rw [StoreEntries.pairs_eq, StoreEntries.pairs_eq]
      exact List.map_subset _ List.filter_sublist.subset
    rw [Machine.sweep, hsweep]
    refine ⟨⟨hobject, fun entry hentry => hs.keyed entry (List.mem_filter.mp hentry).1,
      fun _ pair hpair => ?_, fun name hname => ?_, ?_⟩, hs.readable⟩
    · show (m.heap.keeping alive).isWeakKey pair.1 = true
      rw [Heap.isWeakKey_keeping]
      exact hs.taken rfl pair (hsub hpair)
    · show ((m.heap.keeping alive).attributes _).find? name = none
      rw [Heap.attributes_keeping]
      exact hs.bare name hname
    · show m.registry.lookup (m.heap.keeping alive) _ = _
      rw [Heap.lookup_store m.registry hs.object hobject]
      exact hs.handlers
  · -- An entry stands under the normal form of its key, and a weak key is its own.
    rw [StoreEntries.pairs_eq, StoreEntries.pairs_eq, List.filter_map]
    refine congrArg (List.map _) (List.filter_congr fun entry hentry => ?_)
    have hpair : (entry.2.label, entry.2.value) ∈ entries.pairs := by
      rw [StoreEntries.pairs_eq]
      exact List.mem_map_of_mem hentry
    have hlabel := hs.taken rfl _ hpair
    rw [hs.keyed entry hentry, (Heap.storeKey_of_isWeakKey hlabel _).mpr rfl]
    rfl

end Machine.Offers

end ChainScript
