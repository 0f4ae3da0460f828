import ChainScript.Proofs.Places
import ChainScript.Proofs.Registration
import ChainScript.Proofs.Scope
import ChainScript.Proofs.StoreSurface

/-!
# Functions with a fixed receiver

Reading `v :: f` fixes `v` as the receiver of a function, and reading `w :: b` through what this
comes to makes another function of the same target and the same receiver, however often it is done.
Each is an object of its own that shares nothing with the others, so a change to the target or the
receiver of one leaves the others alone.

`Heap.Fixes` says that such a function stands on the heap, and everything that it does follows from
that: `Machine.Bound`. It remains to see where the functions stand after a sequence of reads, which
is by induction over the receivers, and after a sequence of changes, which is by induction over the
changes.
-/

namespace ChainScript

open Run (on)

/-! ## The handlers of callables -/

namespace Registry

/-- The handlers that the built-in extension for callables attaches. -/
def callableHandlers : HandlerSet := ⟨some (.builtin .bindGet), none, none⟩

/-- The built-in handlers of callables are the newest that fit a value. -/
def BindsNewest (r : Registry) (h : Heap) (f : Value) : Prop :=
  Newest h f r.entries .callable callableHandlers

/-- They are the newest that fit functions with a fixed receiver, whatever these are. -/
def BindsFixed (r : Registry) : Prop :=
  ∀ {h : Heap} {id : ObjectId} {target receiver : Option Value},
    h.object? id = some (.bound target receiver) → r.BindsNewest h (.object id)

/-- What they serve can be called. -/
theorem BindsNewest.isCallable {r : Registry} {h : Heap} {f : Value} (hr : r.BindsNewest h f) :
    h.isCallable f = true := by
  obtain ⟨_, _, _, hfits, _⟩ := hr
  exact hfits

end Registry

/-- What can be called is no primitive. -/
theorem Heap.isPrimitive_of_isCallable {h : Heap} {f : Value} (hf : h.isCallable f = true) :
    h.isPrimitive f = false := by
  cases f with
  | object id =>
    unfold isCallable at hf
    unfold isPrimitive
    dsimp only at hf ⊢
    split
    next ho => rw [ho] at hf; cases hf
    next => rfl
  | type c => rfl
  | builtin f => rfl
  | _ => cases hf

/-- A caller that calls the built-in handler of callables as it is. Of any other value it may make
what it likes. -/
def Caller.Binds (call : Caller) : Prop :=
  ∀ function base, call (.builtin .bindGet) [function, base] = Invoke.bind function base

/-- Calls do so, at any depth. -/
theorem binds_invoke (depth : Nat) : Caller.Binds (invoke (depth + 1)) := fun _ _ => rfl

/-! ## Accesses through a resolver -/

/-- Reads `base :: resolver`. -/
def readThrough (call : Caller) (base resolver : Value) (strict : Bool) : Run Value := do
  Dispatch.read call (← Dispatch.chain base resolver strict)

/-- Carries out `base :: resolver = value`. -/
def writeThrough (call : Caller) (base resolver value : Value) (strict : Bool) : Run Unit := do
  Dispatch.write call (← Dispatch.chain base resolver strict) value

/-- Carries out `delete base :: resolver`. -/
def deleteThrough (call : Caller) (base resolver : Value) (strict : Bool) : Run Bool := do
  Dispatch.delete call (← Dispatch.chain base resolver strict)

section

variable {m : Machine} {resolver base : Value} {kind : AccessKind}

/-- What has no handlers of its own is served by the built-in ones, for reads only. -/
theorem on_handler_of_bindsNewest (hown : on (Resolver.selfAttached resolver kind) m = (.ok none, m))
    (hnewest : m.registry.BindsNewest m.heap resolver) :
    on (Resolver.handler resolver kind) m
      = (match Registry.callableHandlers.forKind kind with
        | some f => .ok ⟨f, some resolver⟩
        | none => .error (.fault (.noHandler resolver kind)), m) := by
  have hlookup : m.registry.lookup m.heap resolver = some Registry.callableHandlers :=
    Registry.lookup_of_newest hnewest
  rw [Resolver.on_handler, hown]
  dsimp only
  rw [Resolver.attachedEnd, hlookup]
  rfl

/-- A read is noted, and the handler fixes the receiver. Where it cannot be told whether accesses
are traced, the read ends before that. -/
theorem on_readThrough {call : Caller} (hcall : call.Binds)
    (hown : on (Resolver.selfAttached resolver .get) m = (.ok none, m))
    (hnewest : m.registry.BindsNewest m.heap resolver) (hbase : base.isNullish = false)
    (strict : Bool) :
    on (readThrough call base resolver strict) m = if m.traces?.isSome
      then on (Invoke.bind resolver base)
        (m.noted ["read", "virtual", m.heap.typeName resolver, "via", "registry"])
      else (.error (.fault (.badFlag "VPROP_DEBUG" m.debugVariable)), m) := by
  have hprimitive := Heap.isPrimitive_of_isCallable hnewest.isCallable
  rw [readThrough, Run.on_bind_ok (on_chain_virtual m hbase hprimitive strict), Dispatch.read]
  rw [Run.on_bind_ok (on_handler_of_bindsNewest hown hnewest)]
  dsimp only [Registry.callableHandlers, HandlerSet.forKind]
  have hparts : on (do return ["read", "virtual", (← Run.heap).typeName resolver, "via",
        Handler.source ⟨.builtin .bindGet, some resolver⟩]) m
      = (.ok ["read", "virtual", m.heap.typeName resolver, "via", "registry"], m) := rfl
  have hnote := Run.on_note_bind (β := Value) hparts
  have hrun : Handler.run ⟨.builtin .bindGet, some resolver⟩ call [base] = Invoke.bind resolver base :=
    hcall resolver base
  rw [Dispatch.noteVirtual, hnote, hrun]

/-- There is no handler for writes. -/
theorem on_writeThrough (call : Caller)
    (hown : on (Resolver.selfAttached resolver .set) m = (.ok none, m))
    (hnewest : m.registry.BindsNewest m.heap resolver) (hbase : base.isNullish = false)
    (value : Value) (strict : Bool) :
    on (writeThrough call base resolver value strict) m
      = (.error (.fault (.noHandler resolver .set)), m) := by
  have hprimitive := Heap.isPrimitive_of_isCallable hnewest.isCallable
  rw [writeThrough, Run.on_bind_ok (on_chain_virtual m hbase hprimitive strict), Dispatch.write]
  exact Run.on_bind_error (on_handler_of_bindsNewest hown hnewest)

/-- Nor is there one for deletes. -/
theorem on_deleteThrough (call : Caller)
    (hown : on (Resolver.selfAttached resolver .delete) m = (.ok none, m))
    (hnewest : m.registry.BindsNewest m.heap resolver) (hbase : base.isNullish = false)
    (strict : Bool) :
    on (deleteThrough call base resolver strict) m
      = (.error (.fault (.noHandler resolver .delete)), m) := by
  have hprimitive := Heap.isPrimitive_of_isCallable hnewest.isCallable
  rw [deleteThrough, Run.on_bind_ok (on_chain_virtual m hbase hprimitive strict), Dispatch.delete]
  exact Run.on_bind_error (on_handler_of_bindsNewest hown hnewest)

end

/-! ## Functions with a fixed receiver on the heap -/

namespace Heap

/-- A function with a target and a receiver stands at a place, each of them unless it was deleted.
No other attributes were set on it. -/
structure Fixes (h : Heap) (id : ObjectId) (target receiver : Option Value) : Prop where
  object : h.object? id = some (.bound target receiver)
  bare : h.attributes (.object id) = .empty

namespace Fixes

variable {h : Heap} {id : ObjectId} {target receiver : Option Value}

/-- A new one stands at the end. -/
theorem alloc_self (h : Heap) (target receiver : Option Value) :
    (h.alloc (.bound target receiver)).2.Fixes h.size target receiver :=
  ⟨(object?_alloc _ _ _).trans (if_pos rfl), attributes_alloc_self _ _⟩

/-- It stays where it is when another object is made. -/
theorem alloc (hb : h.Fixes id target receiver) (o : Object) :
    (h.alloc o).2.Fixes id target receiver := by
  have hid : id < h.size := lt_size_of_object? hb.object
  refine ⟨?_, (attributes_alloc o hid).trans hb.bare⟩
  rw [object?_alloc, if_neg (Nat.ne_of_lt hid), hb.object]

/-- So it does when another object is replaced. -/
theorem put_of_ne (hb : h.Fixes id target receiver) {other : ObjectId} (hne : id ≠ other) (o : Object) :
    (h.put other o).Fixes id target receiver :=
  ⟨by rw [object?_put, if_neg hne, hb.object], (attributes_put _ _ _ _).trans hb.bare⟩

/-- It can be replaced by one of another target and receiver. -/
theorem put_self (hb : h.Fixes id target receiver) (target' receiver' : Option Value) :
    (h.put id (.bound target' receiver')).Fixes id target' receiver' :=
  ⟨object?_put_self hb.object _, (attributes_put _ _ _ _).trans hb.bare⟩

/-- It has no handlers of its own. -/
theorem on_selfAttached {m : Machine} (hb : m.heap.Fixes id target receiver) (kind : AccessKind) :
    on (Resolver.selfAttached (.object id) kind) m = (.ok none, m) := by
  have hfind : Attribute.find? m.heap (.object id) kind.reservedName = none := by
    rw [Attribute.find?_object hb.object, hb.bare]
    cases kind <;> rfl
  have hoffered : Resolver.offered m.heap (.object id) kind = .ok (none, false) := by
    simp only [Resolver.offered, objectOf?, hb.object, hfind]
    rfl
  rw [Resolver.on_selfAttached, hoffered]
  rfl

/-- Fixing a receiver once more makes another of the same target and receiver. -/
theorem on_bind {m : Machine} {f v : Value} (hb : m.heap.Fixes id (some f) (some v)) (base : Value) :
    on (Invoke.bind (.object id) base) m
      = (.ok (.object m.heap.size),
        { m with heap := (m.heap.alloc (.bound (some f) (some v))).2 }) := by
  rw [Invoke.bind, Run.on_bind, Run.on_heap]
  dsimp only [objectOf?]
  rw [hb.object]
  rfl

end Fixes

end Heap

/-- What has no receiver yet is the target of the new function. -/
theorem on_bind_unbound {m : Machine} {f : Value}
    (hf : ∀ target receiver, m.heap.objectOf? f ≠ some (.bound target receiver)) (base : Value) :
    on (Invoke.bind f base) m
      = (.ok (.object m.heap.size),
        { m with heap := (m.heap.alloc (.bound (some f) (some base))).2 }) := by
  rw [Invoke.bind, Run.on_bind, Run.on_heap]
  dsimp only
  split
  next ho => exact (hf _ _ ho).elim
  next ho => exact (hf _ _ ho).elim
  next => rfl

/-! ## What a function with a fixed receiver does -/

namespace Machine

/-- Writes and deletes through a value are refused, and change nothing. -/
structure Refuses (m : Machine) (b : Value) : Prop where
  written : ∀ call base value strict, base.isNullish = false →
    on (writeThrough call base b value strict) m = (.error (.fault (.noHandler b .set)), m)
  deleted : ∀ call base strict, base.isNullish = false →
    on (deleteThrough call base b strict) m = (.error (.fault (.noHandler b .delete)), m)

/-- A value stands for a function with its receiver fixed: a call of it is one call of the function,
on the receiver and the arguments, and a read through it makes another such function. -/
structure Bound (m : Machine) (b f v : Value) : Prop extends m.Refuses b where
  called : ∀ depth arguments,
    on (invoke (depth + 1) b arguments) m = on (invoke depth f (v :: arguments)) m
  rebound : m.traces?.isSome = true → ∀ base strict, base.isNullish = false →
    ∃ trace, ∀ call : Caller, call.Binds → on (readThrough call base b strict) m
      = (.ok (.object m.heap.size),
        { m with heap := (m.heap.alloc (.bound (some f) (some v))).2, trace })

end Machine

/-- Where it can be told whether accesses are traced, a read makes the function that the handler
makes, and calls nothing else. -/
theorem exists_trace_readThrough {m : Machine} {resolver base f v : Value}
    (hreadable : m.traces?.isSome = true)
    (hown : on (Resolver.selfAttached resolver .get) m = (.ok none, m))
    (hnewest : m.registry.BindsNewest m.heap resolver) (hbase : base.isNullish = false)
    (hbind : ∀ trace, on (Invoke.bind resolver base) { m with trace } = (.ok (.object m.heap.size),
      { m with heap := (m.heap.alloc (.bound (some f) (some v))).2, trace })) (strict : Bool) :
    ∃ trace, ∀ call : Caller, call.Binds → on (readThrough call base resolver strict) m
      = (.ok (.object m.heap.size),
        { m with heap := (m.heap.alloc (.bound (some f) (some v))).2, trace }) := by
  obtain ⟨trace, hnoted⟩ :=
    m.exists_trace_noted ["read", "virtual", m.heap.typeName resolver, "via", "registry"]
  refine ⟨trace, fun call hcall => ?_⟩
  rw [on_readThrough hcall hown hnewest hbase, if_pos hreadable, hnoted, hbind]

namespace Heap.Fixes

variable {m : Machine} {id : ObjectId}

/-- Even if its target or its receiver is gone, a function with a fixed receiver refuses writes and
deletes through it. -/
theorem refuses {target receiver : Option Value} (hb : m.heap.Fixes id target receiver)
    (hfixed : m.registry.BindsFixed) : m.Refuses (.object id) where
  written call _ value strict hbase :=
    on_writeThrough call (hb.on_selfAttached .set) (hfixed hb.object) hbase value strict
  deleted call _ strict hbase :=
    on_deleteThrough call (hb.on_selfAttached .delete) (hfixed hb.object) hbase strict

/-- A function that stands fixed is bound for good, where the registry binds by what is fixed. -/
theorem bound {f v : Value} (hb : m.heap.Fixes id (some f) (some v))
    (hfixed : m.registry.BindsFixed) : m.Bound (.object id) f v where
  toRefuses := hb.refuses hfixed
  called depth arguments := by
    rw [invoke, guarded, Run.on_bind, Run.on_heap]
    dsimp only
    rw [hb.object]
    rfl
  rebound hreadable base strict hbase :=
    exists_trace_readThrough hreadable (hb.on_selfAttached .get) (hfixed hb.object) hbase
      (fun trace => Heap.Fixes.on_bind (m := { m with trace }) hb base) strict

end Heap.Fixes

/-! ## Fixing receivers in turn -/

/-- Reads through a function on the first of the values, through what this comes to on the next, and
so on. The answer is what each read came to. -/
def bindInTurn (call : Caller) (strict : Bool) : Value → List Value → Run (List Value)
  | _, [] => return []
  | f, v :: vs => do
    let b ← readThrough call v f strict
    return b :: (← bindInTurn call strict b vs)

/-- A heap with a number of new objects at its end, all alike. -/
def Heap.withAlike (h : Heap) (o : Object) : Nat → Heap
  | 0 => h
  | n + 1 => (h.alloc o).2.withAlike o n

namespace Heap.Fixes

variable {h : Heap} {id : ObjectId} {target receiver : Option Value}

/-- It stays fixed when objects are made. -/
theorem withAlike (hb : h.Fixes id target receiver) (o : Object) (n : Nat) :
    (h.withAlike o n).Fixes id target receiver := by
  induction n generalizing h with
  | zero => exact hb
  | succ n ih => exact ih (hb.alloc o)

/-- Functions with a fixed receiver that were put at the end stand there. -/
theorem of_withAlike {n : Nat} (hid : id ∈ List.range' h.size n) :
    (h.withAlike (.bound target receiver) n).Fixes id target receiver := by
  induction n generalizing h with
  | zero => cases hid
  | succ n ih =>
    rw [List.range'_succ, List.mem_cons] at hid
    obtain rfl | hid := hid
    · exact (alloc_self h target receiver).withAlike _ n
    · have hsize : (h.alloc (.bound target receiver)).2.size = h.size + 1 := Array.size_push _
      exact ih (hsize ▸ hid)

end Heap.Fixes

/-- After a read that makes a function, those that the rest of the reads make stand beside it. -/
theorem on_bindInTurn_cons {call : Caller} {m : Machine} {resolver w : Value} {vs : List Value}
    {o : Object} {strict : Bool} {trace trace' : List String}
    (hread : on (readThrough call w resolver strict) m
      = (.ok (.object m.heap.size), { m with heap := (m.heap.alloc o).2, trace }))
    (hrest : on (bindInTurn call strict (.object m.heap.size) vs)
        { m with heap := (m.heap.alloc o).2, trace }
      = (.ok ((List.range' (m.heap.alloc o).2.size vs.length).map .object),
        { m with heap := (m.heap.alloc o).2.withAlike o vs.length, trace := trace' })) :
    on (bindInTurn call strict resolver (w :: vs)) m
      = (.ok ((List.range' m.heap.size (w :: vs).length).map .object),
        { m with heap := m.heap.withAlike o (w :: vs).length, trace := trace' }) := by
  have hsize : (m.heap.alloc o).2.size = m.heap.size + 1 := Array.size_push _
  rw [bindInTurn, Run.on_bind_ok hread, Run.on_bind_ok hrest, hsize]
  simp only [List.length_cons, List.range'_succ, List.map_cons]
  rfl

/-- From a function with a fixed receiver on, each read makes another of the same target and
receiver. -/
theorem on_bindInTurn_fixed {m : Machine} {id : ObjectId} {f v : Value} {vs : List Value}
    (hreadable : m.traces?.isSome = true) (hfixed : m.registry.BindsFixed)
    (hb : m.heap.Fixes id (some f) (some v)) (hvs : ∀ w ∈ vs, w.isNullish = false) (strict : Bool) :
    ∃ trace, ∀ call : Caller, call.Binds → on (bindInTurn call strict (.object id) vs) m
      = (.ok ((List.range' m.heap.size vs.length).map .object),
        { m with heap := m.heap.withAlike (.bound (some f) (some v)) vs.length, trace }) := by
  induction vs generalizing m id with
  | nil => exact ⟨m.trace, fun _ _ => rfl⟩
  | cons w vs ih =>
    obtain ⟨hw, hvs⟩ := List.forall_mem_cons.mp hvs
    obtain ⟨trace, hread⟩ := (hb.bound hfixed).rebound hreadable w strict hw
    -- The next read goes through the function that was just made.
    obtain ⟨trace', hrest⟩ := ih (m := { m with
      heap := (m.heap.alloc (.bound (some f) (some v))).2, trace }) hreadable hfixed
      (Heap.Fixes.alloc_self m.heap (some f) (some v)) hvs
    exact ⟨trace', fun call hcall => on_bindInTurn_cons (hread call hcall) (hrest call hcall)⟩

/-! ## Changing a function with a fixed receiver -/

/-- The attributes of a function with a fixed receiver. -/
inductive FixedPart where
  | target
  | receiver

/-- The name of the attribute. -/
def FixedPart.name : FixedPart → String
  | .target => "target"
  | .receiver => "receiver"

/-- A change to an attribute of the function at a place: it is set, or deleted if there is no value.
-/
structure FixedChange where
  id : ObjectId
  part : FixedPart
  value : Option Value

/-- Carries a change out. -/
def FixedChange.run (call : Caller) (c : FixedChange) : Run Bool :=
  match c.value with
  | some v => Ordinary.set call (.object c.id) (.str c.part.name) v .null
  | none => Ordinary.delete call (.object c.id) (.str c.part.name)

namespace FixedPart

variable (target receiver : Option Value)

/-- A function keeps both in places of their own. -/
theorem exists_kept? (part : FixedPart) :
    ∃ found, (Object.bound target receiver).kept? part.name = some found := by
  cases part with
  | target => exact ⟨target, rfl⟩
  | receiver => exact ⟨receiver, rfl⟩

/-- It stays such a function when one of them is replaced. -/
theorem exists_withKept (part : FixedPart) (v : Option Value) :
    ∃ target' receiver',
      (Object.bound target receiver).withKept part.name v = .bound target' receiver' := by
  cases part with
  | target => exact ⟨v, receiver, rfl⟩
  | receiver => exact ⟨target, v, rfl⟩

/-- Neither of them is an attribute of the host's own. -/
theorem isForeign_eq_false {h : Heap} {id : ObjectId}
    (ho : h.object? id = some (.bound target receiver))
    (part : FixedPart) (kind : AccessKind) : h.isForeign kind (.object id) part.name = false := by
  have hreserved : Native.isReserved part.name = false := by cases part <;> decide
  simp [Heap.isForeign, hreserved, ho, Object.isForeign, Object.natives]

end FixedPart

/-- A change replaces the function by one of another target or receiver, and is always accepted. -/
theorem FixedChange.exists_run {m : Machine} (c : FixedChange) {target receiver : Option Value}
    (hb : m.heap.Fixes c.id target receiver) :
    ∃ target' receiver', ∀ call, on (c.run call) m
      = (.ok true, { m with heap := m.heap.put c.id (.bound target' receiver') }) := by
  obtain ⟨id, part, value⟩ := c
  have hentries : m.heap.entries? (.object id) = none := by
    simp [Heap.entries?, Heap.objectOf?, hb.object]
  obtain ⟨found, hfound⟩ := part.exists_kept? target receiver
  obtain ⟨target', receiver', hreplaced⟩ := part.exists_withKept target receiver value
  cases value with
  | some v =>
    have hlist : ∀ items, m.heap.objectOf? (.object id) ≠ some (.list items) := by
      simp [Heap.objectOf?, hb.object]
    refine ⟨target', receiver', fun call => ?_⟩
    rw [run, Ordinary.on_set_attribute call hentries hlist]
    dsimp only
    rw [Attribute.on_set]
    simp only [Heap.objectOf?, hb.object, hfound, hreplaced, part.isForeign_eq_false _ _ hb.object]
    rfl
  | none =>
    have hhas : Attribute.has m.heap (.object id) part.name = found.isSome := by
      simp only [Attribute.has, hb.bare, hb.object, hfound]
      rfl
    have hbare : (m.heap.attributes (.object id)).contains part.name = false := by
      rw [hb.bare]
      rfl
    cases found with
    | some v =>
      refine ⟨target', receiver', fun call => ?_⟩
      rw [run, Ordinary.on_delete_of_entries?_none call hentries]
      dsimp only
      rw [part.isForeign_eq_false _ _ hb.object, if_neg Bool.false_ne_true, hhas,
        Option.isSome_some, if_pos rfl, Attribute.on_delete, hbare, if_neg Bool.false_ne_true]
      simp only [Heap.objectOf?, hb.object, hfound, hreplaced]
    | none =>
      -- What was deleted before is not there to be deleted, and nothing happens.
      refine ⟨target, receiver, fun call => ?_⟩
      rw [run, Ordinary.on_delete_of_entries?_none call hentries, Heap.put_self hb.object]
      dsimp only
      rw [part.isForeign_eq_false _ _ hb.object, if_neg Bool.false_ne_true, hhas,
        Option.isSome_none, if_neg Bool.false_ne_true]

/-- Changes to functions with a fixed receiver are accepted, and what they are not made to stays as
it is.
-/
theorem FixedChange.exists_run_all {m : Machine} {ids : List ObjectId} (changes : List FixedChange)
    (hids : ∀ id ∈ ids, ∃ target receiver, m.heap.Fixes id target receiver)
    (hchanges : ∀ c ∈ changes, c.id ∈ ids) :
    ∃ heap, (∀ call, on (changes.mapM fun c => c.run call) m
        = (.ok (changes.map fun _ => true), { m with heap }))
      ∧ (∀ id ∈ ids, ∃ target receiver, heap.Fixes id target receiver)
      ∧ ∀ id target receiver, m.heap.Fixes id target receiver → (∀ c ∈ changes, c.id ≠ id) →
        heap.Fixes id target receiver := by
  induction changes generalizing m with
  | nil => exact ⟨m.heap, fun _ => rfl, hids, fun _ _ _ hb _ => hb⟩
  | cons c changes ih =>
    obtain ⟨hc, hchanges⟩ := List.forall_mem_cons.mp hchanges
    obtain ⟨target, receiver, hb⟩ := hids c.id hc
    obtain ⟨target', receiver', hrun⟩ := c.exists_run hb
    have hids' : ∀ id ∈ ids, ∃ target receiver,
        (m.heap.put c.id (.bound target' receiver')).Fixes id target receiver := by
      intro id hid
      by_cases heq : id = c.id
      · exact ⟨target', receiver', heq ▸ hb.put_self target' receiver'⟩
      · obtain ⟨target, receiver, hb⟩ := hids id hid
        exact ⟨target, receiver, hb.put_of_ne heq _⟩
    obtain ⟨heap, hrest, hheap, hkept⟩ :=
      ih (m := { m with heap := m.heap.put c.id (.bound target' receiver') }) hids' hchanges
    refine ⟨heap, fun call => ?_, hheap, fun id target receiver hb hother => ?_⟩
    · rw [List.mapM_cons, Run.on_bind_ok (hrun call), Run.on_bind_ok (hrest call)]
      rfl
    · obtain ⟨hc, hother⟩ := List.forall_mem_cons.mp hother
      exact hkept id target receiver (hb.put_of_ne (Ne.symm hc) _) hother

/-! ## Binding is permanent -/

/-- What a machine has become on which receivers of a function were fixed in turn. -/
structure Machine.BoundInTurn (m m' : Machine) (f v : Value) (ids : List ObjectId) : Prop where
  /-- Each read made an object of its own. -/
  distinct : ids.Nodup
  fresh : ∀ id ∈ ids, m.heap.object? id = none
  /-- Apart from these objects and the trace, nothing is changed, and no call was logged. -/
  added : ∃ trace, m' = { m with
    heap := m.heap.withAlike (.bound (some f) (some v)) ids.length, trace }
  bound : ∀ id ∈ ids, m'.Bound (.object id) f v
  /-- However the targets and the receivers of some are changed, the others are as they were. -/
  changed : ∀ changes : List FixedChange, (∀ c ∈ changes, c.id ∈ ids) →
    ∃ m'', (∀ call, on (changes.mapM fun c => c.run call) m'
        = (.ok (changes.map fun _ => true), m''))
      ∧ (∀ id ∈ ids, m''.Refuses (.object id))
      ∧ ∀ id ∈ ids, (∀ c ∈ changes, c.id ≠ id) → m''.Bound (.object id) f v

/-- The functions that stand at the end of a heap were bound in turn. -/
theorem Machine.boundInTurn (m : Machine) (hfixed : m.registry.BindsFixed) (f v : Value) (n : Nat)
    (trace : List String) :
    m.BoundInTurn { m with heap := m.heap.withAlike (.bound (some f) (some v)) n, trace } f v
      (List.range' m.heap.size n) where
  distinct := List.nodup_range'
  fresh id hid := by
    have hsize : m.heap.size ≤ id := (List.mem_range'_1.mp hid).1
    rw [Heap.object?, Array.getElem?_eq_none hsize]
    rfl
  added := ⟨trace, by rw [List.length_range']⟩
  bound id hid := (Heap.Fixes.of_withAlike hid).bound hfixed
  changed changes hchanges := by
    have hids : ∀ id ∈ List.range' m.heap.size n, ∃ target receiver,
        (m.heap.withAlike (.bound (some f) (some v)) n).Fixes id target receiver :=
      fun id hid => ⟨some f, some v, Heap.Fixes.of_withAlike hid⟩
    obtain ⟨heap, hrun, hheap, hkept⟩ := FixedChange.exists_run_all
      (m := { m with heap := m.heap.withAlike (.bound (some f) (some v)) n, trace }) changes hids hchanges
    refine ⟨_, hrun, fun id hid => ?_, fun id hid hother => ?_⟩
    · obtain ⟨target, receiver, hb⟩ := hheap id hid
      exact Heap.Fixes.refuses (m := { m with heap, trace }) hb hfixed
    · have hb := hkept id _ _ (Heap.Fixes.of_withAlike hid) hother
      exact Heap.Fixes.bound (m := { m with heap, trace }) hb hfixed

/-- Where the built-in handlers of callables are the newest that fit, fixing the receivers of a
function in turn fixes the first of them, in as many functions as there are receivers. No read calls
anything but the handler. Where it cannot be told whether accesses are traced, the first read ends
with that fault, and nothing is changed. -/
theorem binding_is_permanent {m : Machine} {f : Value}
    (hf : ∀ target receiver, m.heap.objectOf? f ≠ some (.bound target receiver))
    (hown : on (Resolver.selfAttached f .get) m = (.ok none, m))
    (hnewest : m.registry.BindsNewest m.heap f) (hfixed : m.registry.BindsFixed)
    {v : Value} {vs : List Value} (hvs : ∀ w ∈ v :: vs, w.isNullish = false) (strict : Bool) :
    (m.traces?.isSome = true → ∃ ids m', ids.length = (v :: vs).length
        ∧ (∀ call : Caller, call.Binds →
          on (bindInTurn call strict f (v :: vs)) m = (.ok (ids.map .object), m'))
        ∧ m.BoundInTurn m' f v ids)
      ∧ (m.traces? = none → ∀ call : Caller, call.Binds → on (bindInTurn call strict f (v :: vs)) m
        = (.error (.fault (.badFlag "VPROP_DEBUG" m.debugVariable)), m)) := by
  obtain ⟨hv, hvs⟩ := List.forall_mem_cons.mp hvs
  constructor
  · intro hreadable
    obtain ⟨trace, hread⟩ := exists_trace_readThrough hreadable hown hnewest hv
      (fun trace => on_bind_unbound (m := { m with trace }) hf v) strict
    have hmade := Heap.Fixes.alloc_self m.heap (some f) (some v)
    obtain ⟨trace', hrest⟩ := on_bindInTurn_fixed (m := { m with
      heap := (m.heap.alloc (.bound (some f) (some v))).2, trace }) hreadable hfixed hmade hvs strict
    exact ⟨List.range' m.heap.size (v :: vs).length, _, List.length_range',
      fun call hcall => on_bindInTurn_cons (hread call hcall) (hrest call hcall),
      m.boundInTurn hfixed f v _ trace'⟩
  · intro hunreadable call hcall
    have hnot : ¬m.traces?.isSome = true := by rw [hunreadable]; decide
    have hread := on_readThrough hcall hown hnewest hv strict
    rw [if_neg hnot] at hread
    rw [bindInTurn, Run.on_bind_error hread]

/-- The registry with every built-in extension has no handlers of stores for functions. -/
theorem Registry.bindsFixed_standard : standard.BindsFixed := by
  intro h id target receiver ho
  refine ⟨[], [(.store, _), (.weakStore, _)], rfl, ?_, ?_⟩
  · simp [Heap.isInstance, Heap.isCallable, ho]
  · simp [Heap.isInstance, Heap.objectOf?, ho]

/-- A machine with every built-in extension and a function, object 4, that answers the list of its
arguments.
-/
def Machine.withCollector : Machine :=
  { Machine.blank with
    heap := (Machine.blank.heap.alloc (.function ⟨some (.str "f"), true, .arguments, .plain⟩)).2,
    registry := .standard }

/-- The function that collects has no handler of its own. -/
theorem Machine.withCollector_selfAttached :
    on (Resolver.selfAttached (.object 4) .get) withCollector = (.ok none, withCollector) := by
  rw [Resolver.on_selfAttached]
  rfl

/-- Fixing the receiver 2 after the receiver 1 leaves 1 in place, which the function is given before
the arguments. -/
theorem second_receiver_is_ignored :
    ∃ first second m',
      on (bindInTurn Runner.call false (.object 4) [.int 1, .int 2]) Machine.withCollector
        = (.ok [.object first, .object second], m')
      ∧ first ≠ second
      ∧ ∀ depth arguments, on (invoke (depth + 1) (.object second) arguments) m'
        = on (invoke depth (.object 4) (.int 1 :: arguments)) m' := by
  have hf : ∀ target receiver,
      Machine.withCollector.heap.objectOf? (.object 4) ≠ some (.bound target receiver) := by
    intro target receiver ho
    cases ho
  have hnewest : Machine.withCollector.registry.BindsNewest Machine.withCollector.heap (.object 4) :=
    ⟨[], [(.store, _), (.weakStore, _)], rfl, rfl, by decide⟩
  have hvs : ∀ w ∈ [Value.int 1, .int 2], w.isNullish = false := by decide
  obtain ⟨ids, m', hlength, hread, hbound⟩ := (binding_is_permanent hf
    Machine.withCollector_selfAttached hnewest Registry.bindsFixed_standard hvs false).1 rfl
  obtain ⟨first, second, rfl⟩ : ∃ first second, ids = [first, second] := by
    match ids, hlength with
    | [first, second], _ => exact ⟨first, second, rfl⟩
  refine ⟨first, second, m', hread Runner.call (binds_invoke 999), ?_, ?_⟩
  · simpa using hbound.distinct
  · exact (hbound.bound second (by simp)).called

/-- Where the variable that says whether accesses are traced is no flag, no receiver can be fixed.
-/
theorem misnamed_flag_stops_binding :
    let m := { Machine.withCollector with debug := none, debugVariable := "maybe" }
    m.registry.BindsNewest m.heap (.object 4)
      ∧ on (Resolver.selfAttached (.object 4) .get) m = (.ok none, m)
      ∧ on (readThrough Runner.call (.int 1) (.object 4) false) m
        = (.error (.fault (.badFlag "VPROP_DEBUG" "maybe")), m) := by
  intro m
  have hnewest : m.registry.BindsNewest m.heap (.object 4) :=
    ⟨[], [(.store, _), (.weakStore, _)], rfl, rfl, by decide⟩
  have hown : on (Resolver.selfAttached (.object 4) .get) m = (.ok none, m) := by
    rw [Resolver.on_selfAttached]
    rfl
  have hunreadable : ¬m.traces?.isSome = true := by decide +kernel
  have hbase : (Value.int 1).isNullish = false := rfl
  have hread := on_readThrough (binds_invoke 999) hown hnewest hbase false
  exact ⟨hnewest, hown, hread.trans (if_neg hunreadable)⟩

end ChainScript
