import ChainScript.Proofs.Chain
import ChainScript.Proofs.OrdinaryAccess

/-!
# Environments and references to bindings

`Heap.Scoped` are the environments of the tree that the global environment is the root of. Along the
chain of one of them, outwards, `Heap.binders` are the environments that bind a name. The first of
them is where a reference to the name leads.

A reference to a binding that an environment holds, or that none does, is `Reference.ofOwner`. There
is one equation for each use of it: what is read, and what is left of the heap, `Heap.rebind`. All
but the refusals note the access first, so they end before it where it cannot be told whether
accesses are traced.
-/

namespace ChainScript

open Run (on)

namespace Heap

/-! ## Trees of environments -/

/-- The environments of the tree with the global one as its root. An environment is made after the
one around it. -/
inductive Scoped (h : Heap) (root : ObjectId) : ObjectId → Prop
  | outermost {bindings : Slots} (ho : h.object? root = some (.environment bindings none)) :
    Scoped h root root
  | inner {env around : ObjectId} {bindings : Slots}
    (ho : h.object? env = some (.environment bindings (some around))) (holder : around < env)
    (haround : Scoped h root around) : Scoped h root env

variable {h : Heap} {root env t : ObjectId} {name : String}

/-- The environments that bind a name, from the given one outwards. -/
def binders (h : Heap) (name : String) (env : ObjectId) : List ObjectId :=
  (h.chain env).filter (h.owns (.str name))

/-- An environment is linked to its parent. -/
theorem link?_environment {bindings : Slots} {parent : Option ObjectId}
    (ho : h.object? env = some (.environment bindings parent)) :
    h.link? env = some (bindings, parent) := by
  rw [link?, ho]

/-- What an environment has of its own are its bindings. -/
theorem ownValue?_environment {bindings : Slots} {parent : Option ObjectId}
    (ho : h.object? env = some (.environment bindings parent)) (k : Key) :
    h.ownValue? env k = Slots.value? bindings k := by
  rw [ownValue?, link?_environment ho]

/-- The nearest owner of a name is the first that binds it. -/
theorem owner?_eq_head?_binders (h : Heap) (name : String) (env : ObjectId) :
    h.owner? (.str name) env = (h.binders name env).head? := by
  rw [owner?_eq_find?_chain, binders, List.head?_filter]

/-- What binds a name has a value for it. -/
theorem exists_ownValue?_of_mem_binders (hmem : t ∈ h.binders name env) :
    ∃ v, h.ownValue? t (.str name) = some v :=
  Option.isSome_iff_exists.mp (List.mem_filter.mp hmem).2

namespace Scoped

/-- What is in scope is an environment. -/
theorem exists_environment (hs : h.Scoped root env) :
    ∃ bindings parent, h.object? env = some (.environment bindings parent) := by
  cases hs with
  | outermost ho => exact ⟨_, _, ho⟩
  | inner ho => exact ⟨_, _, ho⟩

/-- The root of the tree belongs to it. -/
theorem root_scoped (hs : h.Scoped root env) : h.Scoped root root := by
  induction hs with
  | outermost ho => exact .outermost ho
  | inner _ _ _ ih => exact ih

/-- Every chain ends at the global environment. -/
theorem root_mem_chain (hs : h.Scoped root env) : root ∈ h.chain env := by
  induction hs with
  | outermost ho => exact self_mem_chain (link?_environment ho)
  | inner ho holder _ ih =>
    rw [chain_of_parent (link?_environment ho) holder]
    exact List.mem_cons_of_mem _ ih

/-- A chain stays in the tree. -/
theorem of_mem_chain (hs : h.Scoped root env) (hmem : t ∈ h.chain env) : h.Scoped root t := by
  induction hs with
  | outermost ho =>
    rw [chain_of_parentless (link?_environment ho), List.mem_singleton] at hmem
    rw [hmem]
    exact .outermost ho
  | inner ho holder haround ih =>
    rw [chain_of_parent (link?_environment ho) holder, List.mem_cons] at hmem
    rcases hmem with rfl | hmem
    · exact .inner ho holder haround
    · exact ih hmem

end Scoped

/-! ## Changing one binding -/

/-- The heap on which an environment binds a name to a value, or binds it no longer. -/
def rebind (h : Heap) (env : ObjectId) (name : String) (v : Option Value) : Heap :=
  match h.object? env with
  | some (.environment bindings parent) =>
    h.put env (.environment (match v with
      | some v => Slots.put bindings (.str name) (.str name) v
      | none => Table.erase bindings (.str name)) parent)
  | _ => h

variable {bindings : Slots} {parent : Option ObjectId}

/-- The environment has the parent that it had, and what it binds differs under the name alone. -/
theorem object?_rebind (ho : h.object? t = some (.environment bindings parent)) (name : String)
    (v : Option Value) :
    ∃ bindings', (h.rebind t name v).object? t = some (.environment bindings' parent)
      ∧ Slots.value? bindings' (.str name) = v
      ∧ ∀ k, k ≠ .str name → Slots.value? bindings' k = Slots.value? bindings k := by
  rw [rebind, ho]
  cases v with
  | some v =>
    refine ⟨_, object?_put_self ho _, ?_, fun k hk => ?_⟩
    · rw [Slots.value?_put, if_pos rfl]
    · rw [Slots.value?_put, if_neg hk]
  | none =>
    refine ⟨_, object?_put_self ho _, ?_, fun k hk => ?_⟩
    · rw [Slots.value?, Table.find?_erase, if_pos rfl]
      rfl
    · rw [Slots.value?, Table.find?_erase, if_neg hk]
      rfl

/-- All else is where it was. -/
theorem object?_rebind_of_ne {id : ObjectId} (hid : id ≠ t) (name : String) (v : Option Value) :
    (h.rebind t name v).object? id = h.object? id := by
  unfold rebind
  split
  · rw [object?_put, if_neg hid]
  · rfl

/-- Binding a name anew makes a difference under that name of that environment. -/
theorem differsUnder_rebind (ho : h.object? t = some (.environment bindings parent)) (name : String)
    (v : Option Value) : h.DiffersUnder (h.rebind t name v) t (.str name) := by
  obtain ⟨bindings', ho', -, helse⟩ := object?_rebind ho name v
  have hlink' := link?_environment ho'
  rw [rebind, ho] at hlink' ⊢
  exact .put (link?_environment ho) hlink' helse

/-- The environment has the new value of its own. -/
theorem ownValue?_rebind_self (ho : h.object? t = some (.environment bindings parent)) (name : String)
    (v : Option Value) : (h.rebind t name v).ownValue? t (.str name) = v := by
  obtain ⟨bindings', ho', hself, -⟩ := object?_rebind ho name v
  rw [ownValue?_environment ho', hself]

/-- The tree is the same. -/
theorem Scoped.rebind (hs : h.Scoped root env) (t : ObjectId) (name : String) (v : Option Value) :
    (h.rebind t name v).Scoped root env := by
  have hkept : ∀ {id bindings parent}, h.object? id = some (.environment bindings parent) →
      ∃ bindings', (h.rebind t name v).object? id = some (.environment bindings' parent) := by
    intro id bindings parent ho
    by_cases hid : id = t
    · subst hid
      obtain ⟨bindings', ho', -⟩ := object?_rebind ho name v
      exact ⟨bindings', ho'⟩
    · exact ⟨bindings, by rw [object?_rebind_of_ne hid, ho]⟩
  induction hs with
  | outermost ho => exact .outermost (hkept ho).choose_spec
  | inner ho holder _ ih => exact .inner (hkept ho).choose_spec holder ih

end Heap

/-! ## Notes of accesses to bindings -/

namespace Machine

/-- Whether accesses are traced, where that can be told. -/
def traces? (m : Machine) : Option Bool := m.debug.or (Flag.read? m.debugVariable)

/-- The machine on which an access has been noted. -/
def noted (m : Machine) (parts : List String) : Machine :=
  if m.traces? = some true then { m with trace := m.trace ++ [" ".intercalate ("[DBG]" :: parts)] }
  else m

variable (m : Machine) (parts : List String)

/-- Adding lines to the trace leaves the heap as it is. -/
@[simp] theorem noted_heap : (m.noted parts).heap = m.heap := by unfold noted; split <;> rfl

/-- It leaves the global environment as it is. -/
@[simp] theorem noted_globals : (m.noted parts).globals = m.globals := by unfold noted; split <;> rfl

/-- A note is no more than a line of the trace. -/
theorem exists_trace_noted : ∃ trace, m.noted parts = { m with trace } := by
  unfold noted
  split
  · exact ⟨_, rfl⟩
  · exact ⟨m.trace, rfl⟩

end Machine

/-- What goes on from a note goes on from the machine on which it was made. Where it cannot be told
whether accesses are traced, that is the fault instead. -/
theorem Run.on_note_bind {β : Type} {m : Machine} {parts : Run (List String)} {shown : List String}
    (hparts : on parts m = (.ok shown, m)) (f : PUnit → Run β) :
    on (note parts >>= f) m = if m.traces?.isSome then on (f ⟨⟩) (m.noted shown)
      else (.error (.fault (.badFlag "VPROP_DEBUG" m.debugVariable)), m) := by
  unfold Machine.noted
  rw [note, bind_assoc, on_bind, on_tracing, Machine.traces?]
  rcases m.debug.or (Flag.read? m.debugVariable) with _ | _ | _
  · rfl
  · rfl
  · dsimp only
    rw [if_pos rfl, bind_assoc, on_bind, hparts]
    rfl

/-- Where it cannot be told whether accesses are traced, nothing goes on from a note, whatever its
parts are. -/
theorem Run.on_note_bind_untold {β : Type} {m : Machine} (huntold : m.traces? = none)
    (parts : Run (List String)) (f : PUnit → Run β) :
    on (note parts >>= f) m = (.error (.fault (.badFlag "VPROP_DEBUG" m.debugVariable)), m) := by
  unfold Machine.traces? at huntold
  rw [note, bind_assoc, on_bind, on_tracing, huntold]

/-! ## References to bindings -/

/-- The reference of a name that the given environment binds, or that none does. -/
def Reference.ofOwner (owner : Option ObjectId) (name : String) (strict : Bool) : Reference :=
  .ofBinding ((owner.map Value.object).getD .null) (.str name) strict .undefined false

namespace Environment

variable {m : Machine} {t : ObjectId} {bindings : Slots} {parent : Option ObjectId}

/-- What an environment binds, and what is around it. -/
theorem bindings?_object {h : Heap} (ho : h.object? t = some (.environment bindings parent)) :
    bindings? h (.object t) = some (t, bindings, parent) := by
  simp [bindings?, Heap.objectOf?, ho]

/-- What an environment does not bind is no key of it. -/
def lookupEnd (h : Heap) (env : ObjectId) (name : String) : Except Stop Value :=
  match h.ownValue? env (.str name) with
  | some v => .ok v
  | none => .error (.fault (.native .keyError))

variable (ho : m.heap.object? t = some (.environment bindings parent)) (name : String)
include ho

/-- The owner of a name is the nearest environment that binds it. -/
theorem on_owner :
    on (owner (.object t) (.str name)) m = (.ok (m.heap.owner? (.str name) t), m) := by
  rw [owner, Run.on_bind, Run.on_heap]
  dsimp only
  rw [bindings?_object ho]
  rfl

/-- Looking up a name ends with the value that the environment itself has, or fails. -/
theorem on_lookup : on (lookup (.object t) (.str name)) m = (lookupEnd m.heap t name, m) := by
  rw [lookup, Run.on_bind, Run.on_heap]
  dsimp only
  rw [bindings?_object ho, lookupEnd, Heap.ownValue?_environment ho]
  dsimp only
  rw [Run.on_bind, Run.on_keyOf]
  show on (match Slots.value? bindings (.str name) with
    | some v => pure v
    | none => Run.failNative .keyError) m = _
  cases Slots.value? bindings (.str name) <;> rfl

/-- Assigning binds the name in the environment itself. -/
theorem on_assign (value : Value) :
    on (assign (.object t) (.str name) value) m
      = (.ok (), { m with heap := m.heap.rebind t name (some value) }) := by
  rw [assign, Run.on_bind, Run.on_heap]
  dsimp only
  rw [bindings?_object ho, Heap.rebind, ho]
  rfl

/-- Removing takes the binding from the environment itself. -/
theorem on_remove :
    on (remove (.object t) (.str name)) m
      = (.ok true, { m with heap := m.heap.rebind t name none }) := by
  rw [remove, Run.on_bind, Run.on_heap]
  dsimp only
  rw [bindings?_object ho, Heap.rebind, ho]
  rfl

end Environment

namespace Dispatch

variable {m : Machine} {env t : ObjectId} {bindings : Slots} {parent : Option ObjectId}

/-- The reference of a name leads to the nearest environment that binds it. -/
theorem on_binding (ho : m.heap.object? env = some (.environment bindings parent)) (name : String)
    (strict : Bool) :
    on (binding (.object env) (.str name) strict) m
      = (.ok (.ofOwner (m.heap.owner? (.str name) env) name strict), m) :=
  Run.on_bind_ok (Environment.on_owner ho name)

variable (call : Caller) (name : String) (strict : Bool)

/-- The name of a binding is put into words as it is. -/
theorem on_words (word : String) (rest : List String) (m : Machine) :
    on (do return word :: "binding" :: (← Run.text (.str name)) :: rest) m
      = (.ok (word :: "binding" :: name :: rest), m) := rfl

/-- A reference that no environment binds cannot be read. -/
theorem on_read_unbound (m : Machine) :
    on (read call (.ofOwner none name strict)) m
      = (.error (.fault (.unbound (.str name) (.ofOwner none name strict))), m) := rfl

/-- A reference is read from the environment that it leads to. -/
theorem on_read_bound (ho : m.heap.object? t = some (.environment bindings parent)) :
    on (read call (.ofOwner (some t) name strict)) m =
      if m.traces?.isSome then
        (Environment.lookupEnd m.heap t name, m.noted ["read", "binding", name])
      else (.error (.fault (.badFlag "VPROP_DEBUG" m.debugVariable)), m) := by
  show on (Run.note _ >>= fun _ => Environment.lookup (.object t) (.str name)) m = _
  rw [Run.on_note_bind (on_words name "read" [] m),
    Environment.on_lookup (by rw [Machine.noted_heap]; exact ho), Machine.noted_heap]

/-- A strict write to a name that is bound nowhere is refused. -/
theorem on_write_unbound_strict (value : Value) (m : Machine) :
    on (write call (.ofOwner none name true) value) m
      = (.error (.fault (.unboundWrite (.str name) (.ofOwner none name true))), m) := rfl

/-- A write changes the environment that the reference leads to. -/
theorem on_write_bound (ho : m.heap.object? t = some (.environment bindings parent)) (value : Value) :
    on (write call (.ofOwner (some t) name strict) value) m =
      if m.traces?.isSome then
        (.ok (), { m.noted ["write", "binding", name] with
          heap := m.heap.rebind t name (some value) })
      else (.error (.fault (.badFlag "VPROP_DEBUG" m.debugVariable)), m) := by
  show on (Run.note _ >>= fun _ => Environment.assign (.object t) (.str name) value) m = _
  rw [Run.on_note_bind (on_words name "write" [] m),
    Environment.on_assign (by rw [Machine.noted_heap]; exact ho), Machine.noted_heap]

/-- A sloppy write to a name that is bound nowhere makes a global binding. -/
theorem on_write_unbound (ho : m.heap.object? m.globals = some (.environment bindings parent))
    (value : Value) :
    on (write call (.ofOwner none name false) value) m =
      if m.traces?.isSome then
        (.ok (), { m.noted ["write", "binding", name, "-> new global"] with
          heap := m.heap.rebind m.globals name (some value) })
      else (.error (.fault (.badFlag "VPROP_DEBUG" m.debugVariable)), m) := by
  show on (Run.note _ >>= fun _ => do
    Environment.assign (.object (← get).globals) (.str name) value) m = _
  rw [Run.on_note_bind (on_words name "write" ["-> new global"] m), Run.on_bind, Run.on_get]
  dsimp only
  rw [Machine.noted_globals, Environment.on_assign (by rw [Machine.noted_heap]; exact ho)]
  simp only [Machine.noted_heap, Machine.noted_globals]

/-- A delete takes the binding from the environment that the reference leads to. -/
theorem on_delete_bound (ho : m.heap.object? t = some (.environment bindings parent)) :
    on (delete call (.ofOwner (some t) name strict)) m =
      if m.traces?.isSome then
        (.ok true, { m.noted ["delete", "binding", name] with heap := m.heap.rebind t name none })
      else (.error (.fault (.badFlag "VPROP_DEBUG" m.debugVariable)), m) := by
  show on (Run.note _ >>= fun _ => Environment.remove (.object t) (.str name)) m = _
  rw [Run.on_note_bind (on_words name "delete" [] m),
    Environment.on_remove (by rw [Machine.noted_heap]; exact ho), Machine.noted_heap]

end Dispatch

end ChainScript
