import ChainScript.Proofs.Action
import ChainScript.Proofs.CopyPrint
import ChainScript.Proofs.CopyTree

/-!
# Runs on copies

A run on a machine is mirrored by a run on another machine whose heap holds a copy of the first
one's. The second run does the same with the renamed objects: it comes to the renamed value or stops
with the renamed fault, leaves a copy of what the first run leaves, and touches nothing else on its
heap.

An object that the first run makes gets the next free place there, and so does its copy on the
second heap. A renaming can only tell of the copies that it puts in these places, which is what
`Renaming.Fits` asks. It is enough that it does so for the objects that the first run really makes.

The rules below follow the shape of actions. Each is about all renamings at once, so what a rule
asks of the actions that it joins is asked under the same renaming.
-/

namespace ChainScript

open Run (on)

namespace Machine

variable (ρ : Renaming) (m : Machine) (h' : Heap)

/-- The machine with its objects renamed, on another heap. -/
def moved : Machine := {
  m with
  heap := h'
  registry := rename ρ m.registry
  globals := ρ m.globals
  current := rename ρ m.current
  log := rename ρ m.log }

/-- The moved machine has the heap that it was moved onto. -/
@[simp] theorem moved_heap : (m.moved ρ h').heap = h' := rfl

/-- Its registry is the renamed one. -/
@[simp] theorem moved_registry : (m.moved ρ h').registry = rename ρ m.registry := rfl

/-- Its global environment is the renamed one. -/
@[simp] theorem moved_globals : (m.moved ρ h').globals = ρ m.globals := rfl

/-- It is as strict as the machine was. -/
@[simp] theorem moved_strict : (m.moved ρ h').strict = m.strict := rfl

/-- Its current node is the renamed one. -/
@[simp] theorem moved_current : (m.moved ρ h').current = rename ρ m.current := rfl

/-- It is traced where the machine was. -/
@[simp] theorem moved_debug : (m.moved ρ h').debug = m.debug := rfl

/-- It reads the same variable of the host's. -/
@[simp] theorem moved_debugVariable : (m.moved ρ h').debugVariable = m.debugVariable := rfl

end Machine

/-- The renaming puts the objects that are made on the first heap, up to the given place, in the
places that they get on the second heap. -/
def Renaming.Fits (ρ : Renaming) (h h' : Heap) (n : Nat) : Prop :=
  ∀ id : Nat, h.size ≤ id → id < n → h.size + ρ id = h'.size + id

/-- What two runs made of two heaps, the second of which held a copy of the first: it still does,
has grown alike, and is as before in all other places. -/
structure Heap.Grown (ρ : Renaming) (h₀ h₀' h h' : Heap) : Prop where
  copy : h.Copy ρ h'
  size : h'.size + h₀.size = h₀'.size + h.size
  kept : ∀ j < h₀'.size, (∀ id, ρ id ≠ j) → h'.cells[j]? = h₀'.cells[j]?

namespace Heap.Grown

variable {ρ : Renaming} {h₀ h₀' h h' h₁ h₁' : Heap}

/-- A heap that has not changed has grown into itself. -/
theorem refl (hh : h.Copy ρ h') : Heap.Grown ρ h h' h h' := ⟨hh, rfl, fun _ _ _ => rfl⟩

/-- What comes after the runs grows from where they began. -/
theorem trans (hg : Heap.Grown ρ h₀ h₀' h h') (hsize : h₀.size ≤ h.size)
    (hg' : Heap.Grown ρ h h' h₁ h₁') : Heap.Grown ρ h₀ h₀' h₁ h₁' := by
  have hs := hg.size
  have hs' := hg'.size
  refine ⟨hg'.copy, by omega, fun j hj hout => ?_⟩
  rw [hg'.kept j (by omega) hout, hg.kept j hj hout]

end Heap.Grown

variable {α β γ δ : Type} (ρ : Renaming)

/-- How the run on the copy ends. The function tells what becomes of the value. -/
inductive MirrorEnds (r : α → β) (h₀ h₀' : Heap) :
    Except Stop α × Machine → Except Stop β × Machine → Prop
  | value {a : α} {m : Machine} {h' : Heap} (hg : Heap.Grown ρ h₀ h₀' m.heap h') :
    MirrorEnds r h₀ h₀' (.ok a, m) (.ok (r a), m.moved ρ h')
  | stop {e : Stop} {m : Machine} {h' : Heap} (hg : Heap.Grown ρ h₀ h₀' m.heap h') :
    MirrorEnds r h₀ h₀' (.error e, m) (.error (rename ρ e), m.moved ρ h')

/-- The second action does on a copy what the first one does. -/
structure Mirror (r : α → β) (x : Run α) (y : Run β) : Prop where
  grows : ∀ m, m.heap.size ≤ (on x m).2.heap.size
  ends : ∀ m h', m.heap.Copy ρ h' → ρ.Fits m.heap h' (on x m).2.heap.size →
    MirrorEnds ρ r m.heap h' (on x m) (on y (m.moved ρ h'))

/-- The second action does on a copy what the first one does, and comes to the renamed value. -/
abbrev Follows [Renamed α] (x y : Run α) : Prop := Mirror ρ (rename ρ) x y

namespace Mirror

variable {ρ} {r : α → β} {q : γ → δ}

/-! ## Composition -/

/-- What goes on from mirrored runs ends as if it had begun where they began. -/
theorem goOn {z : Run γ} {w : Run δ} (hzw : Mirror ρ q z w) {h₀ h₀' h₁' : Heap} {m : Machine}
    (hsize : h₀.size ≤ m.heap.size) (hg : Heap.Grown ρ h₀ h₀' m.heap h₁')
    (hfits : ρ.Fits h₀ h₀' (on z m).2.heap.size) :
    MirrorEnds ρ q h₀ h₀' (on z m) (on w (m.moved ρ h₁')) := by
  have hsizes := hg.size
  have hends := hzw.ends m h₁' hg.copy fun id hid hlt => by
    have hid' := hfits id (Nat.le_trans hsize hid) hlt
    omega
  revert hends
  generalize on z m = end₁, on w (m.moved ρ h₁') = end₂
  rintro (hg' | hg')
  · exact .value (hg.trans hsize hg')
  · exact .stop (hg.trans hsize hg')

/-- A renaming that fits what two actions make fits what the first of them makes. -/
theorem fits_first {h₀ h₀' h : Heap} {n : Nat} (hfits : ρ.Fits h₀ h₀' n) (hn : h.size ≤ n) :
    ρ.Fits h₀ h₀' h.size :=
  fun id hid hlt => hfits id hid (Nat.lt_of_lt_of_le hlt hn)

/-- An action that leaves the machine alone is mirrored by one that does so and ends alike. -/
theorem of_still {x : Run α} {y : Run β} {result : Machine → Except Stop α}
    {result' : Machine → Except Stop β} (hx : ∀ m, on x m = (result m, m))
    (hy : ∀ m, on y m = (result' m, m))
    (hxy : ∀ m h', m.heap.Copy ρ h' → match result m with
      | .ok a => result' (m.moved ρ h') = .ok (r a)
      | .error e => result' (m.moved ρ h') = .error (rename ρ e)) : Mirror ρ r x y := by
  refine ⟨fun m => by rw [hx], fun m h' hh _ => ?_⟩
  have hr := hxy m h' hh
  rw [hx, hy]
  cases hm : result m with
  | ok a =>
    rw [hm] at hr
    rw [hr]
    exact .value (.refl hh)
  | error e =>
    rw [hm] at hr
    rw [hr]
    exact .stop (.refl hh)

/-- An answer is mirrored by the answer that stands for it. -/
theorem pure (a : α) {b : β} (hb : b = r a) : Mirror ρ r (pure a) (pure b) := by
  subst hb
  exact of_still (fun _ => rfl) (fun _ => rfl) fun _ _ _ => rfl

/-- Actions that are mirrored, and go on so from their values, are mirrored together. -/
theorem bind {x : Run α} {y : Run β} {f : α → Run γ} {g : β → Run δ} (hxy : Mirror ρ r x y)
    (hfg : ∀ a, Mirror ρ q (f a) (g (r a))) : Mirror ρ q (x >>= f) (y >>= g) := by
  constructor
  · intro m
    have hsize := hxy.grows m
    rw [Run.on_bind]
    generalize on x m = end₁ at hsize
    obtain ⟨_ | a, m₁⟩ := end₁
    · exact hsize
    · exact Nat.le_trans hsize ((hfg a).grows m₁)
  · intro m h' hh hfits
    have hsize := hxy.grows m
    have hends := hxy.ends m h' hh
    rw [Run.on_bind] at hfits
    rw [Run.on_bind, Run.on_bind]
    generalize on x m = end₁ at hsize hends hfits
    obtain ⟨e | a, m₁⟩ := end₁
    · have hstop := hends hfits
      generalize on y (m.moved ρ h') = end₂ at hstop
      cases hstop with
      | stop hg => exact .stop hg
    · have hvalue := hends (fits_first hfits ((hfg a).grows m₁))
      generalize on y (m.moved ρ h') = end₂ at hvalue
      cases hvalue with
      | value hg => exact (hfg a).goOn hsize hg hfits

/-- The other way out of a failure is mirrored as well. -/
theorem tryCatch {x : Run α} {y : Run β} {f : Stop → Run α} {g : Stop → Run β}
    (hxy : Mirror ρ r x y) (hfg : ∀ e, Mirror ρ r (f e) (g (rename ρ e))) :
    Mirror ρ r (tryCatch x f) (tryCatch y g) := by
  constructor
  · intro m
    have hsize := hxy.grows m
    rw [Run.on_tryCatch]
    generalize on x m = end₁ at hsize
    obtain ⟨e | _, m₁⟩ := end₁
    · exact Nat.le_trans hsize ((hfg e).grows m₁)
    · exact hsize
  · intro m h' hh hfits
    have hsize := hxy.grows m
    have hends := hxy.ends m h' hh
    rw [Run.on_tryCatch] at hfits
    rw [Run.on_tryCatch, Run.on_tryCatch]
    generalize on x m = end₁ at hsize hends hfits
    obtain ⟨e | a, m₁⟩ := end₁
    · have hstop := hends (fits_first hfits ((hfg e).grows m₁))
      generalize on y (m.moved ρ h') = end₂ at hstop
      cases hstop with
      | stop hg => exact (hfg e).goOn hsize hg hfits
    · have hvalue := hends hfits
      generalize on y (m.moved ρ h') = end₂ at hvalue
      cases hvalue with
      | value hg => exact .value hg

/-! ## Looking at the machine -/

/-- What follows the heap goes on with a copy of it. -/
theorem heap {f : Heap → Run γ} {g : Heap → Run δ}
    (hfg : ∀ h h', h.Copy ρ h' → Mirror ρ q (f h) (g h')) :
    Mirror ρ q (Run.heap >>= f) (Run.heap >>= g) := by
  constructor
  · intro m
    obtain ⟨h', hh⟩ := m.heap.exists_copy ρ
    exact (hfg m.heap h' hh).grows m
  · exact fun m h' hh hfits => (hfg m.heap h' hh).ends m h' hh hfits

/-- What follows the machine goes on with a copy of it. -/
theorem get {f g : Machine → Run γ} {q : γ → γ}
    (hfg : ∀ m h', m.heap.Copy ρ h' → Mirror ρ q (f m) (g (m.moved ρ h'))) :
    Mirror ρ q (get >>= f) (get >>= g) := by
  constructor
  · intro m
    obtain ⟨h', hh⟩ := m.heap.exists_copy ρ
    exact (hfg m h' hh).grows m
  · exact fun m h' hh hfits => (hfg m h' hh).ends m h' hh hfits

/-- What follows an object goes on with a copy of it. -/
theorem objectOf? {v : Value} {f g : Option Object → Run γ} {q : γ → γ}
    (hfg : ∀ o o', Option.Rel (Object.Copy ρ) o o' → Mirror ρ q (f o) (g o')) :
    Mirror ρ q (Run.objectOf? v >>= f) (Run.objectOf? (rename ρ v) >>= g) :=
  .heap fun h h' hh => hfg (h.objectOf? v) (h'.objectOf? (rename ρ v)) (hh.objectOf? v)

/-- Printing that comes to the same, or fails in the same way, is mirrored. -/
theorem ofPrinted {printed : Printed α} {printed' : Printed β} (hp : printed' = r <$> printed) :
    Mirror ρ r (Run.ofPrinted printed) (Run.ofPrinted printed') := by
  subst hp
  refine of_still (Run.on_ofPrinted _) (Run.on_ofPrinted _) fun m h' _ => ?_
  cases printed <;> rfl

/-- The inspected forms of a value and of its copy are the same. -/
theorem inspect (v : Value) : Mirror ρ id (Run.inspect v) (Run.inspect (rename ρ v)) := by
  refine .heap fun h h' hh => .ofPrinted ?_
  rw [hh.inspect, id_map]

/-- So are their texts. -/
theorem text (v : Value) : Mirror ρ id (Run.text v) (Run.text (rename ρ v)) := by
  refine .heap fun h h' hh => .ofPrinted ?_
  rw [hh.text, id_map]

/-- The key of a copy is the copy of the key, and what has no key has none in the copy. -/
theorem keyOf (v : Value) : Follows ρ (Run.keyOf v) (Run.keyOf (rename ρ v)) := by
  refine of_still (Run.on_keyOf v) (Run.on_keyOf (rename ρ v)) fun m h' hh => ?_
  rw [Machine.moved_heap, Run.keyOfResult, Run.keyOfResult, hh.keyOf?]
  cases m.heap.keyOf? v <;> rfl

/-! ## Failing -/

/-- Failing is mirrored by failing with the renamed fault. -/
theorem fail {fault fault' : Fault} (hfault : fault' = rename ρ fault) :
    Mirror ρ r (Run.fail fault) (Run.fail fault') := by
  subst hfault
  refine of_still (fun _ => Run.on_fail _ _) (fun _ => Run.on_fail _ _) fun m h' hh => ?_
  rw [Machine.moved_heap, hh.arising]
  rfl

/-- A failure of the host's own is mirrored by itself. -/
theorem failNative (kind : FaultKind) :
    Mirror ρ r (Run.failNative kind) (Run.failNative kind) :=
  of_still (fun _ => Run.on_failNative _ _) (fun _ => Run.on_failNative _ _) fun _ _ _ => rfl

/-- However a run stops, the mirrored run stops in the renamed way. -/
theorem stop {e e' : Stop} (he : e' = rename ρ e) :
    Mirror ρ r (throw e : Run α) (throw e' : Run β) := by
  subst he
  exact of_still (fun _ => Run.on_throw _ _) (fun _ => Run.on_throw _ _) fun _ _ _ => rfl

/-- Where nothing is described of the one run, nothing is of the other. -/
theorem outside : Mirror ρ r Run.outside Run.outside := stop rfl

/-- A detour is barred in both runs or in neither. -/
theorem detour (guard : Guard) (d : Detour) :
    Mirror ρ id (Run.detour guard d) (Run.detour guard d) := by
  unfold Run.detour
  split
  · exact stop rfl
  · exact pure () rfl

/-- Faults of certain kinds are caught in both runs, with answers that stand for one another. -/
theorem catching {x : Run α} {y : Run β} (guard : Guard) (kinds : FaultKind → Bool)
    (hxy : Mirror ρ r x y) (otherwise : α) :
    Mirror ρ r (Run.catching guard kinds x otherwise)
      (Run.catching guard kinds y (r otherwise)) := by
  refine hxy.tryCatch fun e => ?_
  cases e with
  | outside d => exact stop rfl
  | fault cause =>
    simp only [rename_fault, Fault.kind_rename, Fault.isRefusal_rename]
    split
    · split
      · exact (detour guard .forgive).bind fun _ => pure otherwise rfl
      · exact pure otherwise rfl
    · exact stop rfl

/-! ## Changing the machine -/

/-- A change of anything but the heap. -/
theorem modify {F G : Machine → Machine} (hheap : ∀ m, (F m).heap = m.heap)
    (hFG : ∀ m h', G (m.moved ρ h') = (F m).moved ρ h') :
    Mirror ρ id (modify F : Run PUnit) (modify G) := by
  refine ⟨fun m => Nat.le_of_eq (by rw [Run.on_modify, hheap]), fun m h' hh _ => ?_⟩
  rw [Run.on_modify, Run.on_modify, hFG]
  refine .value (m := F m) ?_
  rw [hheap]
  exact .refl hh

/-- A change of the heap that makes nothing, and on the copy changes only what stands there for
something. -/
theorem modifyHeap {F G : Heap → Heap} (hsize : ∀ h, (F h).size = h.size)
    (hsize' : ∀ h, (G h).size = h.size)
    (hcopy : ∀ h h', h.Copy ρ h' → (F h).Copy ρ (G h'))
    (hkept : ∀ (h : Heap) (j : ObjectId), (∀ id, ρ id ≠ j) → (G h).cells[j]? = h.cells[j]?) :
    Mirror ρ id (Run.modifyHeap F) (Run.modifyHeap G) := by
  refine ⟨fun m => Nat.le_of_eq (by rw [Run.on_modifyHeap, hsize]), fun m h' hh _ => ?_⟩
  rw [Run.on_modifyHeap, Run.on_modifyHeap]
  refine .value (m := { m with heap := F m.heap }) ⟨hcopy _ _ hh, ?_, fun j _ hj => hkept _ _ hj⟩
  rw [hsize, hsize', Machine.moved_heap]

/-- Replacing an object is mirrored by replacing its place by a copy. -/
theorem put {i : ObjectId} {o o' : Object} (hc : o.Copy ρ o') :
    Mirror ρ id (Run.put i o) (Run.put (ρ i) o') := by
  refine modifyHeap ?_ ?_ (fun h h' hh => hh.put hc i) ?_
  · exact fun h => Array.size_modify
  · exact fun h => Array.size_modify
  · intro h j hj
    rw [Heap.put, Array.getElem?_modify, if_neg (hj i)]

/-- Replacing attributes is mirrored by replacing those of the copy by the renamed ones. -/
theorem putAttributes {v : Value} {F G : Heap → Table String Value}
    (hFG : ∀ h h', h.Copy ρ h' → G h' = rename ρ (F h)) :
    Mirror ρ id (Run.modifyHeap fun h => h.putAttributes v (F h))
      (Run.modifyHeap fun h => h.putAttributes (rename ρ v) (G h)) := by
  have hsize : ∀ (h : Heap) (w : Value) (t : Table String Value),
      (h.putAttributes w t).size = h.size := by
    intro h w t
    cases w with
    | object id => exact Array.size_modify
    | _ => rfl
  refine modifyHeap (fun h => hsize _ _ _) (fun h => hsize _ _ _) (fun h h' hh => ?_) ?_
  · rw [hFG h h' hh]
    exact hh.putAttributes v (F h)
  · intro h j hj
    cases v with
    | object id => rw [rename_object, Heap.putAttributes, Array.getElem?_modify, if_neg (hj id)]
    | _ => rfl

/-- An object that is made in both runs is renamed to its copy. -/
theorem alloc {o o' : Object} (hc : o.Copy ρ o') : Follows ρ (Run.alloc o) (Run.alloc o') := by
  have hsize : ∀ (h : Heap) (o : Object), (h.alloc o).2.size = h.size + 1 :=
    fun h o => Array.size_push _
  refine ⟨fun m => ?_, fun m h' hh hfits => ?_⟩
  · rw [Run.on_alloc, hsize]
    exact Nat.le_succ _
  · rw [Run.on_alloc] at hfits
    simp only [hsize] at hfits
    have hnew := hfits m.heap.size (Nat.le_refl _) (Nat.lt_succ_self _)
    have hplace : ρ m.heap.size = h'.size :=
      Nat.add_left_cancel (hnew.trans (Nat.add_comm _ _))
    rw [Run.on_alloc, Run.on_alloc]
    have hvalue : Value.object h'.size = rename ρ (Value.object m.heap.size) := by
      rw [rename_object, hplace]
    rw [Machine.moved_heap, hvalue]
    refine .value (m := { m with heap := (m.heap.alloc o).2 }) ⟨hh.alloc hc hplace, ?_, ?_⟩
    · rw [hsize, hsize]
      omega
    · intro j hj _
      exact (Array.getElem?_push_lt hj).trans (Array.getElem?_eq_getElem hj).symm

/-- A stretch with a strictness of its own. -/
theorem withStrict {x : Run α} {y : Run β} (strict : Bool) (hxy : Mirror ρ r x y) :
    Mirror ρ r (Run.withStrict strict x) (Run.withStrict strict y) := by
  constructor
  · intro m
    rw [Run.on_withStrict]
    exact hxy.grows (m.strictly (m.strict || strict))
  · intro m h' hh hfits
    rw [Run.on_withStrict] at hfits
    rw [Run.on_withStrict, Run.on_withStrict]
    have hends := hxy.ends (m.strictly (m.strict || strict)) h' hh hfits
    rw [Machine.moved_strict]
    revert hends
    show MirrorEnds _ _ _ _ _ (on y ((m.moved ρ h').strictly (m.strict || strict))) → _
    generalize on x (m.strictly (m.strict || strict)) = end₁,
      on y ((m.moved ρ h').strictly (m.strict || strict)) = end₂
    rintro (hg | hg)
    · exact .value (m := Machine.strictly _ _) hg
    · exact .stop (m := Machine.strictly _ _) hg

/-- Whether accesses are traced is the same for a machine and the moved one. -/
theorem tracing : Mirror ρ id Run.tracing Run.tracing := by
  refine .get fun m h' _ => ?_
  rw [Machine.moved_debug, Machine.moved_debugVariable]
  cases m.debug with
  | some enabled => exact .pure enabled rfl
  | none =>
    cases Flag.read? m.debugVariable with
    | some enabled => exact .pure enabled rfl
    | none => exact .fail rfl

/-- A note is taken in both runs or in neither. -/
theorem note {parts parts' : Run (List String)} (hp : Mirror ρ id parts parts') :
    Mirror ρ id (Run.note parts) (Run.note parts') := by
  refine tracing.bind fun enabled => ?_
  cases enabled with
  | false => exact .pure () rfl
  | true => exact hp.bind fun lines => .modify (fun _ => rfl) fun _ _ => rfl

/-! ## Loops -/

/-- An action for each item of a list is mirrored if each one is. -/
theorem mapM {f : α → Run β} {g : γ → Run δ} {s : α → γ} {q : β → δ}
    (hfg : ∀ a, Mirror ρ q (f a) (g (s a))) (as : List α) :
    Mirror ρ (List.map q) (as.mapM f) ((as.map s).mapM g) := by
  induction as with
  | nil =>
    rw [List.map_nil, List.mapM_nil, List.mapM_nil]
    exact .pure [] rfl
  | cons a as ih =>
    rw [List.map_cons, List.mapM_cons, List.mapM_cons]
    exact (hfg a).bind fun b => ih.bind fun bs => .pure _ rfl

/-- What becomes of the outcome of a step of a loop. -/
def stepMap (r : α → β) : ForInStep α → ForInStep β
  | .done a => .done (r a)
  | .yield a => .yield (r a)

/-- A loop is mirrored if each of its rounds is. -/
theorem forIn {f : α → β → Run (ForInStep β)} {g : γ → δ → Run (ForInStep δ)} {s : α → γ}
    {q : β → δ} (hfg : ∀ a b, Mirror ρ (stepMap q) (f a b) (g (s a) (q b))) (as : List α) (b : β) :
    Mirror ρ q (forIn as b f) (forIn (as.map s) (q b) g) := by
  induction as generalizing b with
  | nil =>
    rw [List.map_nil, List.forIn_nil, List.forIn_nil]
    exact .pure b rfl
  | cons a as ih =>
    rw [List.map_cons, List.forIn_cons, List.forIn_cons]
    refine (hfg a b).bind fun step => ?_
    cases step with
    | done b => exact .pure b rfl
    | yield b => exact ih b

end Mirror

end ChainScript
