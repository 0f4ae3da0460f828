import Mathlib.Tactic.Choose
import ChainScript.Proofs.Action
import ChainScript.Proofs.Alike
import ChainScript.Proofs.Step

/-!
# Runs in lockstep

Two runs are in lockstep when, started on machines that agree in everything but how strict they are,
they do the same things to them and end in the same way. The first machine is at least as strict as
the second. Where it is stricter, the first run may also end early, with a fault that only a strict
reference raises, and nothing is said about the second run then. The first run is guarded as well,
while the second has no guard: nothing is said of the second either where the first ends at a barred
detour.

A `Pairing` fixes whether the first run may be stricter, and an invariant that both machines have
all along, with the guard under which it is kept. With equal machines the relation speaks of one run
alone: unless it comes to a barred detour, what it does keeps the invariant, and its fault, if it
ends in one, has a message that can be made.

The rules below follow the shape of actions. `Lockstep` is indexed by the heap that both runs start
from, and relates their values together with the heap that they leave.
-/

namespace ChainScript

open Run (on)

namespace Run

variable {α β : Type}

/-- An action that only looks at the heap, and fails with a fault that is told if it fails. -/
def Looks (x : Run α) : Prop :=
  ∃ result : Heap → Except Stop α,
    (∀ m, on x m = (result m.heap, m)) ∧ ∀ h e, result h = .error e → e.Told h

/-- An answer is given without a change. -/
theorem Looks.pure (a : α) : Looks (pure a) :=
  ⟨fun _ => .ok a, fun _ => rfl, fun _ _ he => nomatch he⟩

/-- The heap is looked at without a change. -/
theorem Looks.heap : Looks heap := ⟨.ok, fun _ => rfl, fun _ _ he => nomatch he⟩

/-- Two looks, the second at what the first saw, are one. -/
theorem Looks.bind {x : Run α} {f : α → Run β} (hx : Looks x) (hf : ∀ a, Looks (f a)) :
    Looks (x >>= f) := by
  obtain ⟨r, hr, ht⟩ := hx
  choose q hq hu using hf
  refine ⟨fun h => (r h).bind fun a => q a h, fun m => ?_, fun h e he => ?_⟩
  · rw [on_bind, hr]
    cases hm : r m.heap with
    | ok a => simp only [hq, Except.bind, hm]
    | error e => simp only [Except.bind, hm]
  · cases hm : r h with
    | ok a =>
      simp only [hm, Except.bind] at he
      exact hu a h e he
    | error e' =>
      simp only [hm, Except.bind] at he
      cases he
      exact ht h e hm

/-- The failure to print has no message, so it is told. -/
theorem Looks.ofPrinted (printed : Printed α) : Looks (ofPrinted printed) := by
  refine ⟨fun _ => ofPrintedResult printed, on_ofPrinted printed, fun h e he => ?_⟩
  cases printed with
  | ok a => cases he
  | error failure =>
    cases he
    exact ⟨none, rfl⟩

/-- A fault arises from the heap alone. -/
theorem Looks.fail (fault : Fault) : Looks (fail fault : Run α) :=
  ⟨fun h => .error (.fault (fault.arising h)), fun _ => rfl, fun h _ he =>
    Except.error.inj he ▸ fault.exists_message_arising h⟩

/-- A value is inspected without a change. -/
theorem Looks.inspect (v : Value) : Looks (inspect v) := .bind .heap fun _ => .ofPrinted _

/-- The key of a value is found without a change. -/
theorem Looks.keyOf (v : Value) : Looks (keyOf v) := by
  refine ⟨fun h => keyOfResult h v, on_keyOf v, fun h e he => ?_⟩
  simp only [keyOfResult] at he
  split at he
  · cases he
  · cases he
    exact ⟨none, rfl⟩

/-- A value is put into words without a change. -/
theorem Looks.text (v : Value) : Looks (text v) := .bind .heap fun _ => .ofPrinted _

end Run

namespace Run

/-- The run came to a detour that is barred. -/
def Detoured {α : Type} (guard : Guard) (ending : Except Stop α × Machine) : Prop :=
  ∃ d, guard d = true ∧ ending.1 = .error (.outside (some d))

/-- Whether a run came to a barred detour shows in how it ended. -/
theorem detoured_iff {α : Type} (guard : Guard) (ending : Except Stop α × Machine) :
    (Stop.detour? ending.1).any guard = true ↔ Detoured guard ending := by
  unfold Detoured Stop.detour?
  rcases ending with ⟨(cause | _ | d) | a, m⟩ <;> simp

instance {α : Type} (guard : Guard) (ending : Except Stop α × Machine) :
    Decidable (Detoured guard ending) := decidable_of_iff _ (detoured_iff guard ending)

/-- Where no detour is barred, no run comes to one that is. -/
theorem not_detoured_none {α : Type} (ending : Except Stop α × Machine) :
    ¬Detoured Guard.none ending := by
  rintro ⟨d, hd, -⟩
  cases hd

/-- A run that came to a barred detour goes no further. -/
theorem detoured_bind {α β : Type} {guard : Guard} {x : Run α} {f : α → Run β} {m : Machine}
    (hp : Detoured guard (on x m)) : Detoured guard (on (x >>= f) m) := by
  obtain ⟨d, hd, he⟩ := hp
  refine ⟨d, hd, ?_⟩
  rw [on_bind]
  revert he
  rcases on x m with ⟨_ | _, _⟩ <;> rintro ⟨⟩
  rfl

end Run

/-- What is shown of two runs side by side. -/
structure Pairing where
  invariant : Invariant
  /-- Whether the first run may be stricter than the second. -/
  lax : Prop
  /-- A run that may be stricter is kept from where its strictness would show other than by a fault.
  -/
  bars : lax → ∀ d ∈ [Detour.readStrict, .forgive], invariant.guard d = true

namespace Pairing

/-- The pairing of a guarded run with the one that has no guard, both equally strict. -/
def level (invariant : Invariant) : Pairing := ⟨invariant, False, False.elim⟩

variable (P : Pairing)

/-- What is barred to the first run. -/
abbrev guard : Guard := P.invariant.guard

/-- How strict the two runs may be. -/
def Strictness (s t : Bool) : Prop := (t = true → s = true) ∧ (¬P.lax → s = t)

/-- Two runs that are equally strict are as strict as they may be. -/
theorem strictness_self (s : Bool) : P.Strictness s s := ⟨id, fun _ => rfl⟩

/-- Two runs are equally strict, or the first is strict and the second is not. -/
theorem Strictness.eq_or_lax {P : Pairing} {s t : Bool} (hst : P.Strictness s t) :
    s = t ∨ P.lax ∧ s = true ∧ t = false := by
  by_cases hl : P.lax
  · cases s <;> cases t <;> simp_all [Strictness]
  · exact .inl (hst.2 hl)

/-- A program that is strict itself makes both runs strict. -/
theorem Strictness.or {P : Pairing} {s t : Bool} (hst : P.Strictness s t) (strict : Bool) :
    P.Strictness (s || strict) (t || strict) := by
  refine ⟨fun ht => ?_, fun hl => by rw [hst.2 hl]⟩
  rw [Bool.or_eq_true] at ht ⊢
  exact ht.imp_left hst.1

/-- How strict the two runs may be left by actions: as strict as they were, unless the strictness
can be set. -/
def Leaves (s t s' t' : Bool) : Prop :=
  P.Strictness s' t' ∧ (P.guard .writeStrict = true → s' = s ∧ t' = t)

/-- An action may leave both runs as strict as they were. -/
theorem Strictness.leaves {P : Pairing} {s t : Bool} (hst : P.Strictness s t) : P.Leaves s t s t :=
  ⟨hst, fun _ => ⟨rfl, rfl⟩⟩

/-- What two actions leave one after the other. -/
theorem Leaves.trans {P : Pairing} {s t s' t' s'' t'' : Bool} (h : P.Leaves s t s' t')
    (h' : P.Leaves s' t' s'' t'') : P.Leaves s t s'' t'' := by
  refine ⟨h'.1, fun hg => ?_⟩
  obtain ⟨rfl, rfl⟩ := h.2 hg
  exact h'.2 hg

variable {α β γ δ : Type}

/-- How two runs end that began as strict as given. -/
inductive Ends (R : α → β → Heap → Prop) (s t : Bool) :
    Except Stop α × Machine → Except Stop β × Machine → Prop
  | value {a : α} {b : β} {m : Machine} {s' t' : Bool} (hR : R a b m.heap)
    (hm : P.invariant.holds m) (hst : P.Leaves s t s' t') :
    Ends R s t (.ok a, m.strictly s') (.ok b, m.strictly t')
  | stop {e e' : Stop} {m : Machine} {s' t' : Bool} (he : e.Alike e') (heq : ¬P.lax → e = e')
    (ht : e.Told m.heap) (hm : P.invariant.holds m) (hst : P.Leaves s t s' t') :
    Ends R s t (.error e, m.strictly s') (.error e', m.strictly t')
  | refusal {e : Stop} {m : Machine} {q : Except Stop β × Machine} (hl : P.lax) (he : e.Refused) :
    Ends R s t (.error e, m) q
  | around {p : Except Stop α × Machine} {q : Except Stop β × Machine}
    (hp : Run.Detoured P.guard p) : Ends R s t p q

/-- What two runs end with after actions that left them as strict as given. -/
theorem Ends.after {P : Pairing} {R : α → β → Heap → Prop} {s t s' t' : Bool}
    {p : Except Stop α × Machine} {q : Except Stop β × Machine} (hends : P.Ends R s' t' p q)
    (hst : P.Leaves s t s' t') : P.Ends R s t p q := by
  obtain ⟨hab, hi, hst'⟩ | ⟨he, heq, ht, hi, hst'⟩ | ⟨hl, he⟩ | hp := hends
  · exact .value hab hi (hst.trans hst')
  · exact .stop he heq ht hi (hst.trans hst')
  · exact .refusal hl he
  · exact .around hp

/-- Two actions that, started from a heap, do the same and come to related values. -/
def Lockstep (h : Heap) (R : α → β → Heap → Prop) (x : Run α) (y : Run β) : Prop :=
  ∀ m s t, m.heap = h → P.invariant.holds m → P.Strictness s t →
    P.Ends R s t (on x (m.strictly s)) (on y (m.strictly t))

/-- Two actions that, started from a heap, do the same and come to the same value. -/
abbrev Paired (h : Heap) (x y : Run α) : Prop := P.Lockstep h (fun a b _ => a = b) x y

/-- An action that, started from a heap, does the same in both runs and comes to the same value. -/
abbrev Steady (h : Heap) (x : Run α) : Prop := P.Paired h x x

/-! ## Composition -/

variable {P} {h : Heap} {R : α → β → Heap → Prop} {S : γ → δ → Heap → Prop}

/-- Related values may be related more loosely. -/
theorem Lockstep.mono {R' : α → β → Heap → Prop} {x : Run α} {y : Run β} (hxy : P.Lockstep h R x y)
    (hR : ∀ a b h', R a b h' → R' a b h') : P.Lockstep h R' x y := by
  intro m s t hm hi hst
  have hends := hxy m s t hm hi hst
  revert hends
  generalize on x (m.strictly s) = p, on y (m.strictly t) = q
  rintro (⟨hab, hi', hst'⟩ | ⟨he, heq, ht, hi', hst'⟩ | ⟨hl, he⟩ | hp)
  · exact .value (hR _ _ _ hab) hi' hst'
  · exact .stop he heq ht hi' hst'
  · exact .refusal hl he
  · exact .around hp

/-- Answers that are related are given in lockstep. -/
theorem Lockstep.pure {a : α} {b : β} (hab : R a b h) : P.Lockstep h R (pure a) (pure b) := by
  intro m s t hm hi hst
  exact .value (hm ▸ hab) hi hst.leaves

/-- Two actions in lockstep go on in lockstep from related values. -/
theorem Lockstep.bind {x : Run α} {y : Run β} {f : α → Run γ} {g : β → Run δ}
    (hxy : P.Lockstep h R x y) (hfg : ∀ a b h', R a b h' → P.Lockstep h' S (f a) (g b)) :
    P.Lockstep h S (x >>= f) (y >>= g) := by
  intro m s t hm hi hst
  have hends := hxy m s t hm hi hst
  by_cases hp : Run.Detoured P.guard (on x (m.strictly s))
  · exact .around (Run.detoured_bind hp)
  · rw [Run.on_bind, Run.on_bind]
    revert hends hp
    generalize on x (m.strictly s) = p, on y (m.strictly t) = q
    -- Only where both come to a value is there more to do; every other end is the end of the whole.
    rintro (⟨hab, hi', hst'⟩ | ⟨he, heq, ht, hi', hst'⟩ | ⟨hl, he⟩ | hp) hnot
    · exact (hfg _ _ _ hab _ _ _ rfl hi' hst'.1).after hst'
    · exact .stop he heq ht hi' hst'
    · exact .refusal hl he
    · exact (hnot hp).elim

/-- Two actions that come to the same value are followed in lockstep by what is in lockstep from
each value. -/
theorem Lockstep.andThen {x y : Run α} {f : α → Run γ} {g : α → Run δ} (hxy : P.Paired h x y)
    (hfg : ∀ a h', P.Lockstep h' S (f a) (g a)) : P.Lockstep h S (x >>= f) (y >>= g) :=
  hxy.bind fun a _ h' hab => hab ▸ hfg a h'

/-- A choice that is made alike in both runs. -/
theorem Lockstep.ite {c c' : Prop} [Decidable c] [Decidable c'] (hc : c ↔ c') {x x' : Run α}
    {y y' : Run β} (hxy : c → P.Lockstep h R x y) (hxy' : ¬c → P.Lockstep h R x' y') :
    P.Lockstep h R (if c then x else x') (if c' then y else y') := by
  by_cases h : c
  · rw [if_pos h, if_pos (hc.mp h)]
    exact hxy h
  · rw [if_neg h, if_neg fun h' => h (hc.mpr h')]
    exact hxy' h

/-! ## Looking at the machine -/

/-- What follows a look at the heap goes on from that heap, with what was seen there. -/
theorem Lockstep.look {x : Run α} {f : α → Run γ} {g : α → Run δ} (hx : x.Looks)
    (hfg : ∀ a, (∃ m : Machine, m.heap = h ∧ on x m = (.ok a, m)) → P.Lockstep h S (f a) (g a)) :
    P.Lockstep h S (x >>= f) (x >>= g) := by
  obtain ⟨r, hr, ht⟩ := hx
  have hlook : P.Lockstep h (fun a b h' => a = b ∧ h' = h ∧ ∃ m : Machine, m.heap = h ∧
      on x m = (.ok a, m)) x x := by
    intro m s t hm hi hst
    subst hm
    rw [hr, hr, Machine.strictly_heap, Machine.strictly_heap]
    cases he : r m.heap with
    | ok a => exact .value ⟨rfl, rfl, m, rfl, by rw [hr, he]⟩ hi hst.leaves
    | error e => exact .stop (.refl e) (fun _ => rfl) (ht _ e he) hi hst.leaves
  refine hlook.bind ?_
  rintro a _ _ ⟨rfl, rfl, ha⟩
  exact hfg a ha

/-- What follows the heap goes on with that heap. -/
theorem Lockstep.heap {f : Heap → Run γ} {g : Heap → Run δ} (hfg : P.Lockstep h S (f h) (g h)) :
    P.Lockstep h S (Run.heap >>= f) (Run.heap >>= g) := by
  intro m s t hm hi hst
  subst hm
  exact hfg m s t rfl hi hst

/-- What follows the machine goes on with two machines that differ in strictness alone. -/
theorem Lockstep.get {f : Machine → Run γ} {g : Machine → Run δ}
    (hfg : ∀ (m : Machine) s t, m.heap = h → m.globals = P.invariant.globals → P.Strictness s t →
      P.Lockstep h S (f (m.strictly s)) (g (m.strictly t))) :
    P.Lockstep h S (get >>= f) (get >>= g) := by
  intro m s t hm hi hst
  exact hfg m s t hm (P.invariant.globals_eq hi) hst m s t hm hi hst

/-- What follows an object goes on with that object. -/
theorem Lockstep.objectOf? {v : Value} {f : Option Object → Run γ} {g : Option Object → Run δ}
    (hfg : P.Lockstep h S (f (h.objectOf? v)) (g (h.objectOf? v))) :
    P.Lockstep h S (Run.objectOf? v >>= f) (Run.objectOf? v >>= g) := by
  intro m s t hm hi hst
  subst hm
  exact hfg m s t rfl hi hst

/-- What follows a printed form goes on with it. -/
theorem Lockstep.ofPrinted {printed : Printed α} {f : α → Run γ} {g : α → Run δ}
    (hfg : ∀ a, printed = .ok a → P.Lockstep h S (f a) (g a)) :
    P.Lockstep h S (Run.ofPrinted printed >>= f) (Run.ofPrinted printed >>= g) := by
  refine .look (.ofPrinted printed) fun a ha => hfg a ?_
  obtain ⟨m, -, hm⟩ := ha
  rw [Run.on_ofPrinted] at hm
  cases printed with
  | ok b => cases hm; rfl
  | error failure => cases hm

/-- What follows the key of a value goes on with it. -/
theorem Lockstep.keyOf {v : Value} {f : Key → Run γ} {g : Key → Run δ}
    (hfg : ∀ k, h.keyOf? v = some k → P.Lockstep h S (f k) (g k)) :
    P.Lockstep h S (Run.keyOf v >>= f) (Run.keyOf v >>= g) := by
  refine .look (.keyOf v) fun k hk => hfg k ?_
  obtain ⟨m, rfl, hm⟩ := hk
  rw [Run.on_keyOf, Run.keyOfResult] at hm
  cases hv : m.heap.keyOf? v with
  | some k' => rw [hv] at hm; cases hm; rfl
  | none => rw [hv] at hm; cases hm

/-! ## Failing -/

/-- Faults that differ in strictness alone arise in lockstep. -/
theorem Lockstep.fail {f : Bool → Fault} {s t : Bool} (hst : P.Strictness s t)
    (hf : (f s).blunt = (f t).blunt) : P.Lockstep h R (Run.fail (f s)) (Run.fail (f t)) := by
  intro m s' t' _ hi hst'
  refine .stop (.fault ?_) (fun hl => ?_) (Fault.exists_message_arising m.heap (f s)) hi hst'.leaves
  · rw [Machine.strictly_heap, Machine.strictly_heap, Fault.blunt_arising, Fault.blunt_arising, hf]
  · rw [hst.2 hl, Machine.strictly_heap, Machine.strictly_heap]

/-- The same fault arises in both runs. -/
theorem Lockstep.failSame (fault : Fault) : P.Lockstep h R (Run.fail fault) (Run.fail fault) :=
  .fail (f := fun _ => fault) (P.strictness_self true) rfl

/-- Both runs fail in the same way of the host's own. -/
theorem Lockstep.failNative (kind : FaultKind) :
    P.Lockstep h R (Run.failNative kind) (Run.failNative kind) :=
  fun m _ _ _ hi hst => .stop (m := m) (.refl _) (fun _ => rfl) ⟨none, rfl⟩ hi hst.leaves

/-- Both runs end outside. -/
theorem Lockstep.outside : P.Lockstep h R Run.outside Run.outside :=
  fun m _ _ _ hi hst => .stop (m := m) (.refl _) (fun _ => rfl) .intro hi hst.leaves

/-- Where a detour is barred the first run ends outside, and where it is not both runs take it. -/
theorem Lockstep.detour {d : Detour} {f : Unit → Run γ} {g : Unit → Run δ}
    (hfg : P.guard d = false → P.Lockstep h S (f ()) (g ())) :
    P.Lockstep h S (Run.detour P.guard d >>= f) (Run.detour .none d >>= g) := by
  intro m s t hm hi hst
  rw [Run.on_bind, Run.on_bind, Run.on_detour, Run.on_detour]
  cases hd : P.guard d with
  | true => exact .around ⟨d, hd, rfl⟩
  | false => exact hfg hd m s t hm hi hst

/-- A fault is caught in both runs or in neither. A refusal may be caught in the first run alone,
and then it ends at a detour. -/
theorem Lockstep.catching {kinds : FaultKind → Bool} {x y : Run α} {otherwise : α}
    (hxy : P.Paired h x y) :
    P.Paired h (Run.catching P.guard kinds x otherwise) (Run.catching .none kinds y otherwise) := by
  intro m s t hm hi hst
  have hends := hxy m s t hm hi hst
  simp only [Run.catching, Run.on_tryCatch]
  revert hends
  generalize on x (m.strictly s) = p, on y (m.strictly t) = q
  rintro (⟨hab, hi', hst'⟩ | ⟨he, heq, ht, hi', hst'⟩ | ⟨hl, he⟩ | ⟨d, hd, hp⟩)
  · exact .value hab hi' hst'
  · cases he with
    | outside detour => exact .stop (.refl _) (fun _ => rfl) .intro hi' hst'
    | @fault f g hfg =>
      have hkind : f.kind = g.kind := by rw [← Fault.kind_blunt f, hfg, Fault.kind_blunt]
      have hrefusal : f.isRefusal = g.isRefusal := by
        rw [← Fault.isRefusal_blunt f, hfg, Fault.isRefusal_blunt]
      dsimp only
      rw [← hkind, ← hrefusal]
      split
      · split
        · rw [Run.on_bind, Run.on_bind, Run.on_detour, Run.on_detour]
          cases hd : P.guard .forgive with
          | true => exact .around ⟨.forgive, hd, rfl⟩
          | false => exact .value rfl hi' hst'
        · exact .value rfl hi' hst'
      · exact .stop (.fault hfg) heq ht hi' hst'
  · -- Only a fault is a refusal, and going on where one was caught is barred to a stricter run.
    rename_i e _
    cases e with
    | outside detour => exact he.elim
    | fault cause =>
      have hforgive : P.guard .forgive = true := P.bars hl _ (by decide)
      have hrefusal : cause.isRefusal = true := he
      dsimp only
      rw [hrefusal, if_pos rfl]
      split
      · rw [Run.on_bind, Run.on_detour, hforgive]
        exact .around ⟨.forgive, hforgive, rfl⟩
      · exact .refusal hl hrefusal
  · obtain ⟨_ | _, m'⟩ := p <;> cases hp
    exact .around ⟨d, hd, rfl⟩

/-- The first run may be refused where the second is not. -/
theorem Lockstep.refuse {f : Fault} {y : Run β} (hl : P.lax) (hf : (f.arising h).isRefusal = true) :
    P.Lockstep h R (Run.fail f) y := by
  intro m s t hm _ _
  refine .refusal hl ?_
  rw [Machine.strictly_heap, hm]
  exact hf

/-- Where a strict reference is refused and a sloppy one goes on, two runs go on in lockstep, or the
stricter one is refused. -/
theorem Lockstep.ifStrict {f : Bool → Fault} {x : Run α} {y : Run β} {s t : Bool}
    (hst : P.Strictness s t) (hxy : P.Lockstep h R x y)
    (hf : ((f true).arising h).isRefusal = true) :
    P.Lockstep h R (if s then Run.fail (f s) else x) (if t then Run.fail (f t) else y) := by
  rcases hst.eq_or_lax with rfl | ⟨hl, rfl, rfl⟩
  · cases s with
    | true => exact .failSame _
    | false => exact hxy
  · exact .refuse hl hf

/-! ## Changing the machine -/

/-- One step of the heap keeps two runs in lockstep. -/
theorem Lockstep.modifyHeap {F : Heap → Heap}
    (hs : Heap.Step P.guard P.invariant.globals h (F h)) :
    P.Lockstep h (fun _ _ h' => h' = F h) (Run.modifyHeap F) (Run.modifyHeap F) := by
  intro m s t hm hi hst
  subst hm
  exact .value (m := { m with heap := F m.heap }) rfl (P.invariant.step hi hs) hst.leaves

/-- Replacing an object by what can become of it keeps two runs in lockstep. -/
theorem Lockstep.put {id : ObjectId} {o o' : Object} (ho : h.object? id = some o)
    (hc : o.Change P.guard o') :
    P.Lockstep h (fun _ _ h' => h' = h.put id o') (Run.put id o') (Run.put id o') :=
  .modifyHeap (F := fun h => h.put id o') (.put ho hc)

/-- Making an object keeps two runs in lockstep. -/
theorem Lockstep.alloc {o : Object} (ho : o.Fresh P.invariant.globals h) :
    P.Lockstep h (fun a b h' => a = .object h.size ∧ b = .object h.size ∧ h' = (h.alloc o).2)
      (Run.alloc o) (Run.alloc o) := by
  intro m s t hm hi hst
  subst hm
  exact .value (m := { m with heap := (m.heap.alloc o).2 }) ⟨rfl, rfl, rfl⟩
    (P.invariant.step hi (.alloc ho)) hst.leaves

/-- Changing the handlers in force is steady. -/
theorem steady_register (F : Registry → Registry) :
    P.Steady h (modify fun m => { m with registry := F m.registry }) :=
  fun m _ _ _ hi hst =>
    .value (m := { m with registry := F m.registry }) rfl (P.invariant.register hi _) hst.leaves

/-- Setting the strictness makes both runs equally strict. It is a detour of its own. -/
theorem steady_setStrict (hg : P.guard .writeStrict = false) (b : Bool) :
    P.Steady h (modify fun m => { m with strict := b }) :=
  fun m _ _ _ hi _ =>
    .value (m := m) rfl hi ⟨P.strictness_self b, fun hbarred => nomatch hg.symm.trans hbarred⟩

/-- Making an object that stands alone is steady. -/
theorem steady_alloc {o : Object} (ho : o.standsAlone = true) : P.Steady h (Run.alloc o) :=
  (Lockstep.alloc (Object.fresh_of_standsAlone ho _ _)).mono fun _ _ _ hab =>
    hab.1.trans hab.2.1.symm

/-- Replacing an object is steady. -/
theorem steady_put {id : ObjectId} {o o' : Object} (ho : h.object? id = some o)
    (hc : o.Change P.guard o') : P.Steady h (Run.put id o') :=
  (Lockstep.put ho hc).mono fun _ _ _ _ => rfl

/-- Both runs trace their accesses, or neither does. -/
theorem Lockstep.tracing :
    P.Lockstep h (fun a b h' => a = b ∧ h' = h) Run.tracing Run.tracing := by
  refine .get fun m s t _ _ _ => ?_
  rw [Machine.strictly_debug, Machine.strictly_debug, Machine.strictly_debugVariable,
    Machine.strictly_debugVariable]
  cases m.debug with
  | some enabled => exact .pure ⟨rfl, rfl⟩
  | none =>
    cases Flag.read? m.debugVariable with
    | some enabled => exact .pure ⟨rfl, rfl⟩
    | none => exact .failSame _

/-- What follows a note goes on from the same heap, whether accesses are traced or not. -/
theorem Lockstep.note {parts : Run (List String)} {f : PUnit → Run γ} {g : PUnit → Run δ}
    (hp : parts.Looks) (hfg : P.Lockstep h S (f ⟨⟩) (g ⟨⟩)) :
    P.Lockstep h S (Run.note parts >>= f) (Run.note parts >>= g) := by
  have hnote : P.Lockstep h (fun _ _ h' => h' = h) (Run.note parts) (Run.note parts) := by
    refine Lockstep.tracing.bind ?_
    rintro enabled _ _ ⟨rfl, rfl⟩
    -- The parts are put into words only where accesses are traced.
    cases enabled with
    | false => exact .pure rfl
    | true =>
      refine .look hp fun lines _ m s t hm hi hst => ?_
      exact .value (m := { m with trace := m.trace ++ [_] }) hm (P.invariant.note hi _) hst.leaves
  refine hnote.bind ?_
  rintro _ _ _ rfl
  exact hfg

/-! ## Loops -/

/-- Steady steps through a list come to the same list. -/
theorem steady_mapM {f : α → Run β} (hf : ∀ a h, P.Steady h (f a)) (as : List α) :
    P.Steady h (as.mapM f) := by
  induction as generalizing h with
  | nil => rw [List.mapM_nil]; exact .pure rfl
  | cons a as ih =>
    rw [List.mapM_cons]
    exact (hf a h).andThen fun b h₁ => ih.andThen fun bs h₂ => .pure rfl

/-- A loop over a list with a steady body is steady. -/
theorem steady_forIn {f : α → β → Run (ForInStep β)} (hf : ∀ a b h, P.Steady h (f a b))
    (as : List α) (b : β) : P.Steady h (forIn as b f) := by
  induction as generalizing b h with
  | nil => rw [List.forIn_nil]; exact .pure rfl
  | cons a as ih =>
    rw [List.forIn_cons]
    refine (hf a b h).andThen fun step h₁ => ?_
    cases step with
    | done b => exact .pure rfl
    | yield b => exact ih b

/-! ## Strictness -/

/-- A stretch with a strictness of its own stays in lockstep, and ends as strict as it began. -/
theorem Lockstep.withStrict {R : α → β → Heap → Prop} {x : Run α} {y : Run β} (strict : Bool)
    (hxy : P.Lockstep h R x y) :
    P.Lockstep h R (Run.withStrict strict x) (Run.withStrict strict y) := by
  intro m s t hm hi hst
  rw [Run.on_withStrict, Run.on_withStrict]
  simp only [Machine.strictly_strict, Machine.strictly_strictly]
  have hends := hxy m _ _ hm hi (hst.or strict)
  revert hends
  generalize on x (m.strictly (s || strict)) = p, on y (m.strictly (t || strict)) = q
  rintro (⟨hab, hi', -⟩ | ⟨he, heq, ht, hi', -⟩ | ⟨hl, he⟩ | hp)
  · exact .value hab (P.invariant.strictly hi' _) hst.leaves
  · exact .stop he heq ht (P.invariant.strictly hi' _) hst.leaves
  · exact .refusal hl he
  · exact .around hp

end Pairing

/-! ## One run alone -/

namespace Invariant

variable (I : Invariant) {α : Type} {x y : Run α} {m : Machine}

/-- What two runs from the same machine say about the one without a guard: unless the guarded one
comes to a barred detour the two are the same, the machine that is left has the invariant, and the
fault that stops them is told there. -/
theorem of_paired (hxy : ∀ h, (Pairing.level I).Paired h x y) (hm : I.holds m) :
    Run.Detoured I.guard (on x m) ∨ on x m = on y m ∧ I.holds (on y m).2
      ∧ (I.guard .writeStrict = true → (on y m).2.strict = m.strict)
      ∧ ∀ e, (on y m).1 = .error e → e.Told (on y m).2.heap := by
  have hends := hxy m.heap m m.strict m.strict rfl hm (Pairing.strictness_self _ _)
  revert hends
  show Pairing.Ends _ _ _ _ (on x m) (on y m) → _
  generalize on x m = p, on y m = q
  rintro (⟨rfl, hi, hst⟩ | ⟨he, heq, ht, hi, hst⟩ | ⟨hl, -⟩ | hp)
  · obtain rfl := hst.1.2 id
    exact .inr ⟨rfl, I.strictly hi _, fun hg => (hst.2 hg).1, fun e he => nomatch he⟩
  · obtain rfl := hst.1.2 id
    obtain rfl := heq id
    refine .inr ⟨rfl, I.strictly hi _, fun hg => (hst.2 hg).1, ?_⟩
    rintro _ ⟨⟩
    exact ht
  -- Neither of two equally strict runs is stricter than the other, so neither is refused.
  · exact hl.elim
  · exact .inl hp

/-- Where nothing is barred the guarded run is the run itself. -/
theorem of_steady (hI : I.guard = .none) (hx : ∀ h, (Pairing.level I).Steady h x)
    (hm : I.holds m) :
    I.holds (on x m).2 ∧ ∀ e, (on x m).1 = .error e → e.Told (on x m).2.heap := by
  rcases I.of_paired hx hm with hp | ⟨-, hi, -, ht⟩
  · rw [hI] at hp
    exact (Run.not_detoured_none _ hp).elim
  · exact ⟨hi, ht⟩

end Invariant

end ChainScript
