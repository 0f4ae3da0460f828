import ChainScript.Proofs.Scope
import ChainScript.Runner

/-!
# The laws of lexical bindings

A name is read, written and deleted from an environment through a reference that is made for it then
and there. What is read is what the nearest environment binds the name to (`Scope.nameEnd`), and a
write or a delete changes the binding of that environment alone. So a write is seen from every
environment that resolves the name to the changed one and from no other, and a delete brings the
next binding outwards to light: `lexical_binding_laws`.

An access to a binding is noted before it is carried out. Where the variable that says whether
accesses are traced is no flag, the access ends there, and nothing has changed.
-/

namespace ChainScript

open Run (on)

namespace Scope

/-- Reads a name from an environment. -/
def readName (call : Caller) (env : ObjectId) (name : String) (strict : Bool) : Run Value := do
  let ref ← Dispatch.binding (.object env) (.str name) strict
  Dispatch.read call ref

/-- Writes a name from an environment. -/
def writeName (call : Caller) (env : ObjectId) (name : String) (strict : Bool) (value : Value) :
    Run Unit := do
  let ref ← Dispatch.binding (.object env) (.str name) strict
  Dispatch.write call ref value

/-- Deletes a name from an environment. -/
def deleteName (call : Caller) (env : ObjectId) (name : String) (strict : Bool) : Run Bool := do
  let ref ← Dispatch.binding (.object env) (.str name) strict
  Dispatch.delete call ref

/-- The environment that a sloppy write to a name changes: the nearest that binds it, or the root.
-/
def holder (h : Heap) (root env : ObjectId) (name : String) : ObjectId :=
  (h.binders name env).head?.getD root

/-- How a read of a name ends: with the value of the nearest binding, or with the fault that there
is none. -/
def nameEnd (h : Heap) (env : ObjectId) (name : String) (strict : Bool) : Except Stop Value :=
  match h.nearest? (.str name) env with
  | some v => .ok v
  | none => .error (.fault (.unbound (.str name) (.ofOwner none name strict)))

/-! ## What the accesses come to -/

section

variable {m : Machine} {env t : ObjectId} {name : String} (henv : m.heap.Scoped m.globals env)
  (call : Caller) (strict : Bool)
include henv

/-- The binding that is found is one of an environment. -/
theorem exists_environment_of_owner? (howner : m.heap.owner? (.str name) env = some t) :
    ∃ bindings parent, m.heap.object? t = some (.environment bindings parent) :=
  (henv.of_mem_chain (Heap.mem_chain_of_owner? howner)).exists_environment

/-- Where a name is bound, an access of it goes on from the reference to that binding, and elsewhere
from one that no environment binds. -/
theorem on_named {α : Type} (f : Reference → Run α) (name : String) :
    on (Dispatch.binding (.object env) (.str name) strict >>= f) m
      = on (f (.ofOwner (m.heap.owner? (.str name) env) name strict)) m := by
  obtain ⟨bindings, parent, ho⟩ := henv.exists_environment
  exact Run.on_bind_ok (Dispatch.on_binding ho name strict)

/-- A read gives the value of the nearest binding, or the fault that there is none. -/
theorem on_readName (hreadable : m.traces?.isSome = true) (name : String) :
    (on (readName call env name strict) m).1 = nameEnd m.heap env name strict := by
  rw [readName, on_named henv, nameEnd]
  cases howner : m.heap.owner? (.str name) env with
  | none =>
    rw [Heap.nearest?_eq_none.mpr howner, Dispatch.on_read_unbound]
  | some t =>
    obtain ⟨bindings, parent, ho⟩ := exists_environment_of_owner? henv howner
    obtain ⟨v, hv⟩ := Heap.exists_ownValue?_of_owner? howner
    rw [Dispatch.on_read_bound call name strict ho, if_pos hreadable, Environment.lookupEnd,
      Heap.nearest?_of_owner? howner, hv]

/-- A sloppy write changes the nearest binding, or makes a global one. -/
theorem on_writeName (hreadable : m.traces?.isSome = true) (value : Value) (name : String) :
    ∃ trace, on (writeName call env name false value) m = (.ok (), { m with
      heap := m.heap.rebind (holder m.heap m.globals env name) name (some value), trace }) := by
  rw [writeName, on_named henv, holder, ← Heap.owner?_eq_head?_binders]
  cases howner : m.heap.owner? (.str name) env with
  | none =>
    obtain ⟨bindings, parent, ho⟩ := henv.root_scoped.exists_environment
    obtain ⟨trace, hnoted⟩ := m.exists_trace_noted ["write", "binding", name, "-> new global"]
    rw [Dispatch.on_write_unbound call name ho, if_pos hreadable, hnoted]
    exact ⟨trace, rfl⟩
  | some t =>
    obtain ⟨bindings, parent, ho⟩ := exists_environment_of_owner? henv howner
    obtain ⟨trace, hnoted⟩ := m.exists_trace_noted ["write", "binding", name]
    rw [Dispatch.on_write_bound call name false ho, if_pos hreadable, hnoted]
    exact ⟨trace, rfl⟩

/-- A strict write to a name that is bound nowhere is refused. -/
theorem on_writeName_strict (hunbound : m.heap.binders name env = []) (value : Value) :
    on (writeName call env name true value) m
      = (.error (.fault (.unboundWrite (.str name) (.ofOwner none name true))), m) := by
  rw [writeName, on_named henv, Heap.owner?_eq_head?_binders, hunbound]
  exact Dispatch.on_write_unbound_strict call name value m

/-- A delete takes the nearest binding away. -/
theorem on_deleteName (hreadable : m.traces?.isSome = true)
    (howner : m.heap.owner? (.str name) env = some t) :
    ∃ trace, on (deleteName call env name strict) m
      = (.ok true, { m with heap := m.heap.rebind t name none, trace }) := by
  obtain ⟨bindings, parent, ho⟩ := exists_environment_of_owner? henv howner
  obtain ⟨trace, hnoted⟩ := m.exists_trace_noted ["delete", "binding", name]
  rw [deleteName, on_named henv, howner, Dispatch.on_delete_bound call name strict ho,
    if_pos hreadable, hnoted]
  exact ⟨trace, rfl⟩

end

/-! ## What a change of one binding comes to -/

section

variable {h : Heap} {root env t : ObjectId} {name : String}

/-- The environment that a write to a name changes belongs to the chain. -/
theorem holder_mem_chain (hs : h.Scoped root env) : holder h root env name ∈ h.chain env := by
  rw [holder, ← Heap.owner?_eq_head?_binders]
  cases howner : h.owner? (.str name) env with
  | none => exact hs.root_mem_chain
  | some t => exact Heap.mem_chain_of_owner? howner

/-- After the write, the name is resolved to the changed environment. -/
theorem owner?_rebind_holder (hs : h.Scoped root env) (value : Value) :
    (h.rebind (holder h root env name) name (some value)).owner? (.str name) env
      = some (holder h root env name) := by
  have hmem : holder h root env name ∈ h.chain env := holder_mem_chain hs
  obtain ⟨bindings, parent, ho⟩ := (hs.of_mem_chain hmem).exists_environment
  have hd := Heap.differsUnder_rebind ho name (some value)
  have howns : (h.rebind (holder h root env name) name (some value)).owns (.str name)
      (holder h root env name) = true := by
    rw [Heap.owns, Heap.ownValue?_rebind_self ho]
    rfl
  -- Found anywhere else, it would have been found there before, though nothing bound it.
  by_contra hne
  have hsame := hd.owner?_of_held (fun _ => howns) hne
  cases howner : h.owner? (.str name) env with
  | some t =>
    rw [holder, ← Heap.owner?_eq_head?_binders, howner] at hne
    rw [holder, ← Heap.owner?_eq_head?_binders, howner] at hsame
    exact hne hsame
  | none =>
    rw [howner, Heap.owner?_eq_find?_chain, hd.chain_eq] at hsame
    exact absurd howns (List.find?_eq_none.mp hsame _ hmem)

/-- What a name stands for does not change, unless it is the one that was written and is now
resolved to the changed environment. -/
theorem nameEnd_rebind_of_ne {bindings : Slots} {parent : Option ObjectId}
    (ho : h.object? t = some (.environment bindings parent)) (value : Value) {e : ObjectId}
    {n : String} (hne : n ≠ name ∨ (h.rebind t name (some value)).owner? (.str n) e ≠ some t)
    (strict : Bool) :
    nameEnd (h.rebind t name (some value)) e n strict = nameEnd h e n strict := by
  have hd := Heap.differsUnder_rebind ho name (some value)
  rw [nameEnd, nameEnd]
  by_cases hn : n = name
  · subst hn
    have hother := hne.resolve_left fun hn => hn rfl
    have howns : (h.rebind t n (some value)).owns (.str n) t = true := by
      rw [Heap.owns, Heap.ownValue?_rebind_self ho]
      rfl
    rw [hd.nearest?_eq (hd.owner?_of_held (fun _ => howns) hother) fun _ => hother]
  · have hkey : Key.str n ≠ .str name := fun hk => hn (Key.str.inj hk)
    rw [hd.nearest?_eq (hd.owner?_of_ne hkey e) fun hk => (hkey hk).elim]

/-- A delete of the nearest binding leaves the others, and the next of them is the nearest then. -/
theorem binders_rebind_none {bindings : Slots} {parent : Option ObjectId}
    (ho : h.object? t = some (.environment bindings parent)) {rest : List ObjectId}
    (hbinders : h.binders name env = t :: rest) : (h.rebind t name none).binders name env = rest := by
  have hd := Heap.differsUnder_rebind ho name none
  have howns : (h.rebind t name none).owns (.str name)
      = fun x => decide (x ≠ t) && h.owns (.str name) x := by
    funext x
    by_cases hx : x = t
    · subst hx
      rw [Heap.owns, Heap.ownValue?_rebind_self ho]
      simp
    · rw [hd.owns_eq fun he => hx he.1]
      simp [hx]
  have hnodup : (t :: rest).Nodup := hbinders ▸ (h.nodup_chain env).filter _
  have hrest : ∀ x ∈ rest, decide (x ≠ t) = true := by
    intro x hx
    rw [decide_eq_true_iff]
    rintro rfl
    exact (List.nodup_cons.mp hnodup).1 hx
  rw [Heap.binders, hd.chain_eq, howns, ← List.filter_filter]
  show (h.binders name env).filter (fun x => decide (x ≠ t)) = rest
  rw [hbinders, List.filter_cons_of_neg (by simp), List.filter_eq_self.mpr hrest]

end

end Scope

open Scope (readName writeName deleteName holder nameEnd)

/-! ## The laws -/

/-- One environment binds a name to a value, or binds it no longer, and but for the trace nothing
else differs. -/
structure Scope.Rebound (m m' : Machine) (t : ObjectId) (name : String) (v : Option Value) : Prop where
  machine : ∃ trace, m' = { m with heap := m.heap.rebind t name v, trace }
  /-- No other object differs, and the environment has the parent that it had. -/
  object : ∀ id, id ≠ t → m'.heap.object? id = m.heap.object? id
  around : ∃ bindings bindings' parent, m.heap.object? t = some (.environment bindings parent)
    ∧ m'.heap.object? t = some (.environment bindings' parent)
  /-- No other binding differs, of this environment or another. -/
  held : ∀ e k, m'.heap.ownValue? e k
    = if e = t ∧ k = .str name then v else m.heap.ownValue? e k

/-- Binding a name anew in an environment changes that binding and no other. -/
theorem Scope.rebound {m : Machine} {t : ObjectId} {bindings : Slots} {parent : Option ObjectId}
    (ho : m.heap.object? t = some (.environment bindings parent)) (name : String) (v : Option Value)
    (trace : List String) : Rebound m { m with heap := m.heap.rebind t name v, trace } t name v where
  machine := ⟨trace, rfl⟩
  object _ hid := Heap.object?_rebind_of_ne hid name v
  around := by
    obtain ⟨bindings', ho', -⟩ := Heap.object?_rebind ho name v
    exact ⟨bindings, bindings', parent, ho, ho'⟩
  held e k := by
    split
    · rename_i hself
      rw [hself.1, hself.2]
      exact Heap.ownValue?_rebind_self ho name v
    · rename_i helse
      exact (Heap.differsUnder_rebind ho name v).held e k helse

/-- The laws of a name in an environment, where it can be told whether accesses are traced. -/
structure Scope.Lexical (call : Caller) (m : Machine) (env : ObjectId) (name : String) : Prop where
  /-- A sloppy write changes one binding: that of the nearest environment that binds the name, and
  that of the global environment where none does. A read from the environment gives the value then.
  Read from any other environment, another name stands for what it stood for, and so does this one
  where it is resolved to another environment. -/
  written : ∀ value, ∃ m', on (writeName call env name false value) m = (.ok (), m')
    ∧ Rebound m m' (holder m.heap m.globals env name) name (some value)
    ∧ (∀ strict, (on (readName call env name strict) m').1 = .ok value)
    ∧ ∀ e n strict, m.heap.Scoped m.globals e →
      (n ≠ name ∨ (m'.heap.binders n e).head? ≠ some (holder m.heap m.globals env name)) →
        (on (readName call e n strict) m').1 = (on (readName call e n strict) m).1
  /-- A strict write to a name that is bound nowhere is refused, and changes nothing. -/
  refused : m.heap.binders name env = [] → ∀ value, on (writeName call env name true value) m
    = (.error (.fault (.unboundWrite (.str name) (.ofOwner none name true))), m)
  /-- A delete of a bound name takes the nearest binding away. The next one outwards is read then,
  and the name is bound nowhere if there is none. -/
  deleted : ∀ t rest, m.heap.binders name env = t :: rest → ∀ strict,
    ∃ m', on (deleteName call env name strict) m = (.ok true, m')
      ∧ Rebound m m' t name none
      ∧ m'.heap.binders name env = rest
      ∧ (∀ outer rest', rest = outer :: rest' → ∃ v, m.heap.ownValue? outer (.str name) = some v
        ∧ ∀ strict, (on (readName call env name strict) m').1 = .ok v)
      ∧ (rest = [] → ∀ strict, (on (readName call env name strict) m').1
        = .error (.fault (.unbound (.str name) (.ofOwner none name strict))))

/-- What becomes of the accesses of a name where it cannot be told whether accesses are traced:
those that are not refused anyway end with that fault, and no access changes anything. -/
structure Scope.Unread (call : Caller) (m : Machine) (env : ObjectId) (name : String) : Prop where
  written : ∀ value, on (writeName call env name false value) m
    = (.error (.fault (.badFlag "VPROP_DEBUG" m.debugVariable)), m)
  refused : m.heap.binders name env = [] → ∀ value, on (writeName call env name true value) m
    = (.error (.fault (.unboundWrite (.str name) (.ofOwner none name true))), m)
  deleted : m.heap.binders name env ≠ [] → ∀ strict, on (deleteName call env name strict) m
    = (.error (.fault (.badFlag "VPROP_DEBUG" m.debugVariable)), m)
  read : m.heap.binders name env ≠ [] → ∀ strict, on (readName call env name strict) m
    = (.error (.fault (.badFlag "VPROP_DEBUG" m.debugVariable)), m)

namespace Scope

section

variable {m : Machine} {env : ObjectId} (henv : m.heap.Scoped m.globals env) (call : Caller)
  (name : String)
include henv

/-- A sloppy write is read back, and seen from nowhere else than where the name is resolved to it.
-/
theorem written (hreadable : m.traces?.isSome = true) (value : Value) :
    ∃ m', on (writeName call env name false value) m = (.ok (), m')
      ∧ Rebound m m' (holder m.heap m.globals env name) name (some value)
      ∧ (∀ strict, (on (readName call env name strict) m').1 = .ok value)
      ∧ ∀ e n strict, m.heap.Scoped m.globals e →
        (n ≠ name ∨ (m'.heap.binders n e).head? ≠ some (holder m.heap m.globals env name)) →
          (on (readName call e n strict) m').1 = (on (readName call e n strict) m).1 := by
  obtain ⟨trace, hwrite⟩ := on_writeName henv call hreadable value name
  have hmem : holder m.heap m.globals env name ∈ m.heap.chain env := holder_mem_chain henv
  obtain ⟨bindings, parent, ho⟩ := (henv.of_mem_chain hmem).exists_environment
  have hread : ∀ {e}, m.heap.Scoped m.globals e → ∀ n strict,
      (on (readName call e n strict) { m with
        heap := m.heap.rebind (holder m.heap m.globals env name) name (some value), trace }).1
      = nameEnd (m.heap.rebind (holder m.heap m.globals env name) name (some value)) e n strict :=
    fun he n strict => on_readName (m := { m with
      heap := m.heap.rebind (holder m.heap m.globals env name) name (some value), trace })
      (he.rebind _ name (some value)) call strict hreadable n
  refine ⟨_, hwrite, rebound ho name (some value) trace, fun strict => ?_, fun e n strict he hne => ?_⟩
  · rw [hread henv, nameEnd, Heap.nearest?_of_owner? (owner?_rebind_holder henv value),
      Heap.ownValue?_rebind_self ho]
  · rw [hread he, on_readName he call strict hreadable n]
    rw [← Heap.owner?_eq_head?_binders] at hne
    exact nameEnd_rebind_of_ne ho value hne strict

/-- A delete brings the next binding outwards to light. -/
theorem deleted (hreadable : m.traces?.isSome = true) {t : ObjectId} {rest : List ObjectId}
    (hbinders : m.heap.binders name env = t :: rest) (strict : Bool) :
    ∃ m', on (deleteName call env name strict) m = (.ok true, m')
      ∧ Rebound m m' t name none
      ∧ m'.heap.binders name env = rest
      ∧ (∀ outer rest', rest = outer :: rest' → ∃ v, m.heap.ownValue? outer (.str name) = some v
        ∧ ∀ strict, (on (readName call env name strict) m').1 = .ok v)
      ∧ (rest = [] → ∀ strict, (on (readName call env name strict) m').1
        = .error (.fault (.unbound (.str name) (.ofOwner none name strict)))) := by
  have howner : m.heap.owner? (.str name) env = some t := by
    rw [Heap.owner?_eq_head?_binders, hbinders]
    rfl
  obtain ⟨bindings, parent, ho⟩ := exists_environment_of_owner? henv howner
  obtain ⟨trace, hdelete⟩ := on_deleteName henv call strict hreadable howner
  have hrest := binders_rebind_none ho hbinders
  have hread := fun strict => on_readName (m := { m with heap := m.heap.rebind t name none, trace })
    (henv.rebind t name none) call strict hreadable name
  refine ⟨_, hdelete, rebound ho name none trace, hrest, ?_, ?_⟩
  · rintro outer rest' rfl
    have hmem : outer ∈ (m.heap.rebind t name none).binders name env := by
      rw [hrest]
      exact List.mem_cons_self
    obtain ⟨v, hv⟩ := Heap.exists_ownValue?_of_mem_binders hmem
    have hne : outer ≠ t := by
      rintro rfl
      rw [Heap.ownValue?_rebind_self ho] at hv
      cases hv
    refine ⟨v, ?_, fun strict => (hread strict).trans ?_⟩
    · rw [← (Heap.differsUnder_rebind ho name none).held outer _ fun he => hne he.1, hv]
    · rw [nameEnd, Heap.nearest?, Heap.owner?_eq_head?_binders, hrest]
      simp [hv]
  · rintro rfl strict
    refine (hread strict).trans ?_
    rw [nameEnd, Heap.nearest?, Heap.owner?_eq_head?_binders, hrest]
    rfl

/-- Where it cannot be told whether accesses are traced, no access gets past its note. -/
theorem unread (hunreadable : m.traces? = none) : Unread call m env name := by
  have hnot : ¬m.traces?.isSome = true := by rw [hunreadable]; decide
  have hbound : m.heap.binders name env ≠ [] → ∃ t bindings parent,
      m.heap.owner? (.str name) env = some t
        ∧ m.heap.object? t = some (.environment bindings parent) := by
    intro hne
    obtain ⟨t, rest, hbinders⟩ := List.exists_cons_of_ne_nil hne
    have howner : m.heap.owner? (.str name) env = some t := by
      rw [Heap.owner?_eq_head?_binders, hbinders]
      rfl
    obtain ⟨bindings, parent, ho⟩ := exists_environment_of_owner? henv howner
    exact ⟨t, bindings, parent, howner, ho⟩
  refine ⟨fun value => ?_, on_writeName_strict henv call, fun hne strict => ?_,
    fun hne strict => ?_⟩
  · rw [writeName, on_named henv]
    by_cases hne : m.heap.binders name env = []
    · obtain ⟨bindings, parent, ho⟩ := henv.root_scoped.exists_environment
      rw [Heap.owner?_eq_head?_binders, hne]
      exact (Dispatch.on_write_unbound call name ho value).trans (if_neg hnot)
    · obtain ⟨t, bindings, parent, howner, ho⟩ := hbound hne
      rw [howner, Dispatch.on_write_bound call name false ho, if_neg hnot]
  · obtain ⟨t, bindings, parent, howner, ho⟩ := hbound hne
    rw [deleteName, on_named henv, howner, Dispatch.on_delete_bound call name strict ho, if_neg hnot]
  · obtain ⟨t, bindings, parent, howner, ho⟩ := hbound hne
    rw [readName, on_named henv, howner, Dispatch.on_read_bound call name strict ho, if_neg hnot]

end

end Scope

/-- In every tree of environments with the global one as its root, the laws of lexical bindings hold
of every environment and every name, as far as it can be told whether accesses are traced. Where it
cannot, nothing is changed. -/
theorem lexical_binding_laws {m : Machine} {env : ObjectId} (henv : m.heap.Scoped m.globals env)
    (name : String) (call : Caller) :
    (m.traces?.isSome = true → Scope.Lexical call m env name)
      ∧ (m.traces? = none → Scope.Unread call m env name) :=
  ⟨fun hreadable => ⟨Scope.written henv call name hreadable, Scope.on_writeName_strict henv call,
    fun _ _ => Scope.deleted henv call name hreadable⟩, Scope.unread henv call name⟩

/-- A machine on which an environment inside the global one, object 4, binds a name that the global
one binds too. -/
def withShadow : Machine :=
  let bound := fun n => Slots.put .empty (.str "x") (.str "x") (.int n)
  let (globals, heap) := Heap.initial.alloc (.environment (bound 1) none)
  { Machine.blank with heap := (heap.alloc (.environment (bound 2) (some globals))).2 }

/-- A delete from the inner environment takes its own binding away, and the global one is read then.
-/
theorem deleted_shadow_uncovers :
    withShadow.heap.Scoped withShadow.globals 4
      ∧ withShadow.traces?.isSome = true
      ∧ withShadow.heap.binders "x" 4 = [4, 3]
      ∧ ∃ m', on (deleteName Runner.call 4 "x" false) withShadow = (.ok true, m')
        ∧ (on (readName Runner.call 4 "x" false) m').1 = .ok (.int 1) := by
  have hscoped : withShadow.heap.Scoped withShadow.globals 4 :=
    .inner rfl (by decide) (.outermost rfl)
  have hbinders : withShadow.heap.binders "x" 4 = [4, 3] := by decide +kernel
  refine ⟨hscoped, rfl, hbinders, ?_⟩
  obtain ⟨m', hdelete, -, -, hnext, -⟩ :=
    ((lexical_binding_laws hscoped "x" Runner.call).1 rfl).deleted 4 [3] hbinders false
  obtain ⟨v, hv, hread⟩ := hnext 3 [] rfl
  cases hv
  exact ⟨m', hdelete, hread false⟩

/-- Where the variable that says whether accesses are traced is no flag, a sloppy write to a bound
name ends with that fault. The name keeps its value. -/
theorem misnamed_flag_stops_write :
    let m := { withShadow with debug := none, debugVariable := "maybe" }
    m.heap.Scoped m.globals 4
      ∧ on (writeName Runner.call 4 "x" false (.int 5)) m
        = (.error (.fault (.badFlag "VPROP_DEBUG" "maybe")), m)
      ∧ m.heap.ownValue? 4 (.str "x") = some (.int 2) := by
  intro m
  have hscoped : m.heap.Scoped m.globals 4 := .inner rfl (by decide) (.outermost rfl)
  have hunreadable : m.traces? = none := by decide +kernel
  exact ⟨hscoped, (Scope.unread hscoped Runner.call "x" hunreadable).written (.int 5), rfl⟩

end ChainScript
