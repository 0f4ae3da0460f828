import ChainScript.Run

/-!
# What actions do to a machine

`Run.on` starts an action on a machine and gives how it ends with the machine that it leaves. Each
primitive action has one equation here. Later proofs start actions by these equations and never look
at how the monad is made.
-/

namespace ChainScript

namespace Machine

/-- The machine with the given strictness. -/
def strictly (m : Machine) (strict : Bool) : Machine := { m with strict }

/-- How strict a machine is says nothing of its heap. -/
@[simp] theorem strictly_heap (m : Machine) (s : Bool) : (m.strictly s).heap = m.heap := rfl

/-- Nor of its registry. -/
@[simp] theorem strictly_registry (m : Machine) (s : Bool) :
    (m.strictly s).registry = m.registry := rfl

/-- Nor of its global environment. -/
@[simp] theorem strictly_globals (m : Machine) (s : Bool) : (m.strictly s).globals = m.globals :=
  rfl

/-- Nor of whether accesses are traced. -/
@[simp] theorem strictly_debug (m : Machine) (s : Bool) : (m.strictly s).debug = m.debug := rfl

/-- Nor of the variable that says whether they are. -/
@[simp] theorem strictly_debugVariable (m : Machine) (s : Bool) :
    (m.strictly s).debugVariable = m.debugVariable := rfl

/-- A machine that is made strict or sloppy is so. -/
@[simp] theorem strictly_strict (m : Machine) (s : Bool) : (m.strictly s).strict = s := rfl

/-- What is said last about its strictness counts. -/
@[simp] theorem strictly_strictly (m : Machine) (s t : Bool) :
    (m.strictly s).strictly t = m.strictly t := rfl

end Machine

namespace Run

variable {α β : Type}

/-- How an action ends when it is started on a machine, and the machine that it leaves. -/
def on (action : Run α) (m : Machine) : Except Stop α × Machine := action.run.run m

/-- What an action and the one that goes on from its value come to together. -/
theorem on_bind (x : Run α) (f : α → Run β) (m : Machine) :
    on (x >>= f) m = match on x m with
      | (.ok a, m') => on (f a) m'
      | (.error e, m') => (.error e, m') := by
  simp only [on, ExceptT.run_bind, StateT.run_bind]
  rcases x.run.run m with ⟨_ | _, _⟩ <;> rfl

/-- An action that comes to a value hands it and its machine on. -/
theorem on_bind_ok {x : Run α} {f : α → Run β} {m m' : Machine} {a : α}
    (hx : on x m = (.ok a, m')) : on (x >>= f) m = on (f a) m' := by
  rw [on_bind, hx]

/-- What stops an action stops the one that would go on from it. -/
theorem on_bind_error {x : Run α} {f : α → Run β} {m m' : Machine} {e : Stop}
    (hx : on x m = (.error e, m')) : on (x >>= f) m = (.error e, m') := by
  rw [on_bind, hx]

/-- Two actions that come to a value together do so one after the other. -/
theorem exists_of_on_bind {x : Run α} {f : α → Run β} {m m' : Machine} {b : β}
    (h : on (x >>= f) m = (.ok b, m')) :
    ∃ a m₁, on x m = (.ok a, m₁) ∧ on (f a) m₁ = (.ok b, m') := by
  rw [on_bind] at h
  split at h
  next a m₁ hx => exact ⟨a, m₁, hx, h⟩
  next => cases h

/-- An answer is given at once and changes nothing. -/
@[simp] theorem on_pure (a : α) (m : Machine) : on (pure a) m = (.ok a, m) := rfl

/-- Stopping changes nothing. -/
@[simp] theorem on_throw (e : Stop) (m : Machine) : on (throw e : Run α) m = (.error e, m) := rfl

/-- Looking at the machine gives the machine. -/
@[simp] theorem on_get (m : Machine) : on get m = (.ok m, m) := rfl

/-- Changing the machine gives no answer. -/
@[simp] theorem on_modify (f : Machine → Machine) (m : Machine) :
    on (modify f) m = (.ok (), f m) := rfl

/-- Looking at the heap gives the heap. -/
@[simp] theorem on_heap (m : Machine) : on heap m = (.ok m.heap, m) := rfl

/-- Looking at an object gives what the value names. -/
@[simp] theorem on_objectOf? (v : Value) (m : Machine) :
    on (objectOf? v) m = (.ok (m.heap.objectOf? v), m) := rfl

/-- A run that fails ends with what arises from the fault. -/
@[simp] theorem on_fail (fault : Fault) (m : Machine) :
    on (fail fault : Run α) m = (.error (.fault (fault.arising m.heap)), m) := rfl

/-- A run that fails in a way of the host's own ends with that fault. -/
@[simp] theorem on_failNative (kind : FaultKind) (m : Machine) :
    on (failNative kind : Run α) m = (.error (.fault (.native kind)), m) := rfl

/-- A run that ends outside changes nothing. -/
@[simp] theorem on_outside (m : Machine) :
    on (outside : Run α) m = (.error (.outside none), m) := rfl

/-- A detour is taken, or the run ends outside where it is barred. -/
theorem on_detour (guard : Guard) (d : Detour) (m : Machine) :
    on (detour guard d) m = (if guard d then .error (.outside (some d)) else .ok (), m) := by
  unfold detour
  split <;> rfl

/-- What is made is put at the end of the heap. -/
@[simp] theorem on_alloc (o : Object) (m : Machine) :
    on (alloc o) m = (.ok (.object m.heap.size), { m with heap := (m.heap.alloc o).2 }) := rfl

/-- Replacing an object changes the heap in its place. -/
@[simp] theorem on_put (id : ObjectId) (o : Object) (m : Machine) :
    on (put id o) m = (.ok (), { m with heap := m.heap.put id o }) := rfl

/-- Changing the heap changes nothing else. -/
@[simp] theorem on_modifyHeap (f : Heap → Heap) (m : Machine) :
    on (modifyHeap f) m = (.ok (), { m with heap := f m.heap }) := rfl

/-- A printed form as the end of an action. -/
def ofPrintedResult (printed : Printed α) : Except Stop α :=
  match printed with
  | .ok a => .ok a
  | .error failure => .error (.fault (Fault.unprintable failure))

/-- A run goes on with what was printed, or fails with what stands for it. -/
@[simp] theorem on_ofPrinted (printed : Printed α) (m : Machine) :
    on (ofPrinted printed) m = (ofPrintedResult printed, m) := by
  cases printed <;> rfl

/-- A value that names a slot has a key, and any other value is a fault of the host's own. -/
def keyOfResult (h : Heap) (v : Value) : Except Stop Key :=
  match h.keyOf? v with
  | some key => .ok key
  | none => .error (.fault (.native .typeError))

/-- The key of a value is found, or the value is refused as a key. -/
@[simp] theorem on_keyOf (v : Value) (m : Machine) :
    on (keyOf v) m = (keyOfResult m.heap v, m) := by
  rw [keyOf, on_bind, on_heap]
  cases h : m.heap.keyOf? v <;> simp [keyOfResult, h]

/-- An action with a way out of failures goes that way when it fails, on the machine as it is then.
-/
theorem on_tryCatch (x : Run α) (handler : Stop → Run α) (m : Machine) :
    on (tryCatch x handler) m = match on x m with
      | (.ok a, m') => (.ok a, m')
      | (.error e, m') => on (handler e) m' := by
  unfold on ExceptT.run StateT.run
  simp only [tryCatch, tryCatchThe, MonadExceptOf.tryCatch, ExceptT.tryCatch, ExceptT.mk, bind,
    StateT.bind]
  rcases x m with ⟨_ | _, _⟩ <;> rfl

/-- An action that runs with a strictness of its own leaves the machine as strict as it was. -/
theorem on_withStrict (strict : Bool) (x : Run α) (m : Machine) :
    on (withStrict strict x) m =
      ((on x (m.strictly (m.strict || strict))).1,
        (on x (m.strictly (m.strict || strict))).2.strictly m.strict) := by
  rw [withStrict, on_bind, on_get]
  simp only [on_bind, on_modify, on_tryCatch, Machine.strictly]
  rcases on x { m with strict := m.strict || strict } with ⟨_ | _, _⟩ <;> rfl

/-! ## Actions that come to a value -/

/-- On the machine, the action comes to a value, and leaves a machine, of which `Q` holds. -/
def Yields (x : Run α) (m : Machine) (Q : α → Machine → Prop) : Prop :=
  ∃ a m', on x m = (.ok a, m') ∧ Q a m'

variable {Q R : α → Machine → Prop} {S : β → Machine → Prop} {m : Machine}

/-- An action that yields what is said also yields what follows from it. -/
theorem Yields.mono {x : Run α} (hx : Yields x m Q) (hQ : ∀ a m', Q a m' → R a m') :
    Yields x m R := by
  obtain ⟨a, m', ha, hq⟩ := hx
  exact ⟨a, m', ha, hQ a m' hq⟩

/-- An answer yields what holds of it. -/
theorem Yields.pure {a : α} (hq : Q a m) : Yields (pure a) m Q := ⟨a, m, rfl, hq⟩

/-- An action that goes on from the value of another comes to a value after it. -/
theorem Yields.bind {x : Run α} {f : α → Run β} (hx : Yields x m Q)
    (hf : ∀ a m', Q a m' → Yields (f a) m' S) : Yields (x >>= f) m S := by
  obtain ⟨a, m₁, ha, hq⟩ := hx
  obtain ⟨b, m₂, hb, hs⟩ := hf a m₁ hq
  exact ⟨b, m₂, by rw [on_bind_ok ha, hb], hs⟩

/-- An action goes on from what another that is known comes to. -/
theorem Yields.after {x : Run α} {f : α → Run β} {m₁ : Machine} {a : α}
    (hx : on x m = (.ok a, m₁)) (hf : Yields (f a) m₁ S) : Yields (x >>= f) m S := by
  obtain ⟨b, m₂, hb, hs⟩ := hf
  exact ⟨b, m₂, by rw [on_bind_ok hx, hb], hs⟩

/-! ## Actions that go on as others do -/

/-- On the machine, the action goes on as another does from a machine of which `P` holds. -/
def Leads (x : Run α) (m : Machine) (y : Run α) (P : Machine → Prop) : Prop :=
  ∃ m', P m' ∧ on x m = on y m'

variable {P : Machine → Prop} {y : Run β}

/-- Where an action leads to may be put in other words. -/
theorem Leads.of_eq {x z z' : Run α} (hx : Leads x m z P) (heq : z = z') : Leads x m z' P :=
  heq ▸ hx

/-- What goes on from an action goes on from the one that it leads to. -/
theorem Leads.bind {x z : Run α} {f : α → Run β} (hx : Leads x m z P) :
    Leads (x >>= f) m (z >>= f) P := by
  obtain ⟨m', hp, heq⟩ := hx
  exact ⟨m', hp, by rw [on_bind, on_bind, heq]⟩

/-- An action goes on from what another that is known comes to. -/
theorem Leads.after {x : Run α} {f : α → Run β} {m₁ : Machine} {a : α}
    (hx : on x m = (.ok a, m₁)) (hf : Leads (f a) m₁ y P) : Leads (x >>= f) m y P := by
  obtain ⟨m', hp, heq⟩ := hf
  exact ⟨m', hp, by rw [on_bind_ok hx, heq]⟩

/-- An action goes on from a value that another comes to. -/
theorem Yields.leads {x : Run α} {f : α → Run β} (hx : Yields x m Q)
    (hf : ∀ a m', Q a m' → Leads (f a) m' y P) : Leads (x >>= f) m y P := by
  obtain ⟨a, m₁, ha, hq⟩ := hx
  exact .after ha (hf a m₁ hq)

/-- What the other action comes to, the one that leads to it comes to. -/
theorem Leads.yields {x z : Run α} (hx : Leads x m z P) (hz : ∀ m', P m' → Yields z m' Q) :
    Yields x m Q := by
  obtain ⟨m', hp, heq⟩ := hx
  obtain ⟨a, m'', ha, hq⟩ := hz m' hp
  exact ⟨a, m'', by rw [heq, ha], hq⟩

end Run

end ChainScript
