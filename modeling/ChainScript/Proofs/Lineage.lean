import Mathlib.Order.WellFounded
import ChainScript.Proofs.Chain
import ChainScript.Proofs.Report

/-!
# Chains end

A search for a slot or a binding goes from parent to parent and has no bound of its own, so it ends
only because no record and no environment comes back to itself. What decides on this is fixed when
an object is made: the parent is there already, and no step of a run gives a record another one. An
environment is given another one only where a program sets its attribute `parent`, which is a
detour. `Heap.Grounded` says that every chain is finite, and is kept by every other step.

`Heap.Search` is the search as a loop takes it, a parent at a time and without looking at places. On
grounded heaps it has one result, the nearest that holds the key. Where parents also stand before
what inherits from them, as they do for every runner that was set up, `Heap.owner?` is that result.
-/

namespace ChainScript

open Run (on)

/-- What has a chain: records and environments. -/
inductive Family where
  | record
  | environment
deriving DecidableEq

/-- What of an object decides on its chain. -/
def Object.line? : Object → Option (Family × Option ObjectId)
  | .record _ _ parent _ => some (.record, parent)
  | .environment _ parent => some (.environment, parent)
  | _ => none

/-- Whatever becomes of an object, its line stays. -/
theorem Object.Change.line?_eq {guard : Guard} {o o' : Object} (c : o.Change guard o') :
    o'.line? = o.line? := by
  cases c with
  | kept o name v =>
    unfold withKept
    split <;> rfl
  | _ => rfl

namespace Heap

variable {guard : Guard} {h h' : Heap} {globals id p : ObjectId} {k : Key}

/-- What of the object at a place decides on its chain. -/
def line? (h : Heap) (id : ObjectId) : Option (Family × Option ObjectId) :=
  (h.object? id).bind Object.line?

/-- What has a line has slots and the same parent. -/
theorem exists_link?_of_line? {family : Family} {parent : Option ObjectId}
    (hline : h.line? id = some (family, parent)) : ∃ slots, h.link? id = some (slots, parent) := by
  obtain ⟨o, ho, hline⟩ := Option.bind_eq_some_iff.mp hline
  cases o with
  | record _ slots _ _ => cases hline; exact ⟨slots, by rw [link?, ho]⟩
  | environment bindings _ => cases hline; exact ⟨bindings, by rw [link?, ho]⟩
  | _ => cases hline

/-- What has slots has a line with the same parent. -/
theorem exists_line?_of_link? {slots : Slots} {parent : Option ObjectId}
    (hlink : h.link? id = some (slots, parent)) : ∃ family, h.line? id = some (family, parent) := by
  unfold link? at hlink
  split at hlink
  next ho => cases hlink; exact ⟨.record, by rw [line?, ho]; rfl⟩
  next ho => cases hlink; exact ⟨.environment, by rw [line?, ho]; rfl⟩
  next => cases hlink

/-- A record or an environment inherits from its parent. -/
def ParentOf (h : Heap) (p id : ObjectId) : Prop := ∃ family, h.line? id = some (family, some p)

/-- What is linked to a parent has that parent. -/
theorem parentOf_of_link? {slots : Slots} (hlink : h.link? id = some (slots, some p)) :
    h.ParentOf p id := exists_line?_of_link? hlink

/-- Records inherit from records and environments from environments, and every chain is finite. -/
structure Grounded (h : Heap) : Prop where
  akin : ∀ {family : Family} {p id : ObjectId}, h.line? id = some (family, some p) →
    ∃ parent, h.line? p = some (family, parent)
  finite : WellFounded h.ParentOf

/-- Every parent stands before what inherits from it. -/
def ParentsFirst (h : Heap) : Prop := ∀ p id, h.ParentOf p id → p < id

/-- The global environment stands on the heap. -/
def HasGlobals (h : Heap) (globals : ObjectId) : Prop :=
  ∃ parent, h.line? globals = some (.environment, parent)

/-- What has a line stands on the heap. -/
theorem lt_size_of_line? {l : Family × Option ObjectId} (hline : h.line? id = some l) : id < h.size := by
  obtain ⟨o, ho, -⟩ := Option.bind_eq_some_iff.mp hline
  exact lt_size_of_object? ho

/-! ## What a step does to lines -/

/-- A step leaves every line as it is, unless it gives an environment another parent. -/
theorem Step.line?_or (s : Step guard globals h h') {family : Family} {parent : Option ObjectId}
    (hline : h.line? id = some (family, parent)) :
    h'.line? id = some (family, parent) ∨ guard .relink = false ∧ family = .environment := by
  obtain ⟨o, ho, hline⟩ := Option.bind_eq_some_iff.mp hline
  obtain ⟨o', ho', rfl | c | ⟨hg, _, _, _, rfl, -, -⟩⟩ := s.object? ho
  · exact .inl (by rw [Heap.line?, ho']; exact hline)
  · exact .inl (by rw [Heap.line?, ho']; exact c.line?_eq.trans hline)
  · cases hline
    exact .inr ⟨hg, rfl⟩

/-- Where that is barred, a step leaves every line as it is. -/
theorem Step.line? (hbar : guard .relink = true) (s : Step guard globals h h')
    {l : Family × Option ObjectId} (hline : h.line? id = some l) : h'.line? id = some l := by
  obtain hline | ⟨hg, -⟩ := s.line?_or hline
  · exact hline
  · cases hbar.symm.trans hg

/-- A new object inherits, if it does, from one of its family that is there already. -/
theorem line?_of_fresh {o : Object} (ho : o.Fresh globals h) (hglobals : h.HasGlobals globals)
    {family : Family} (hline : o.line? = some (family, some p)) :
    ∃ parent, h.line? p = some (family, parent) := by
  cases o with
  | record kind slots parent frozen =>
    cases hline
    have hrecord : h.isRecord (.object p) = true := ho p rfl
    unfold isRecord at hrecord
    split at hrecord
    next kind slots outer frozen hobject =>
      have hp : h.object? p = some (.record kind slots outer frozen) := hobject
      exact ⟨outer, by rw [line?, hp]; rfl⟩
    next => cases hrecord
  | environment bindings parent =>
    cases hline
    obtain rfl | ⟨bindings, outer, hp⟩ := ho p rfl
    · exact hglobals
    · exact ⟨outer, by rw [line?, hp]; rfl⟩
  | _ => cases hline

/-- After a step, what has a parent had it before, or was just made, inside one of its family. -/
theorem Step.line?_inv (hbar : guard .relink = true) (s : Step guard globals h h')
    (hglobals : h.HasGlobals globals) {family : Family} (hline : h'.line? id = some (family, some p)) :
    h.line? id = some (family, some p)
      ∨ id = h.size ∧ ∃ parent, h.line? p = some (family, parent) := by
  obtain ⟨o, ho, hl⟩ := Option.bind_eq_some_iff.mp hline
  cases s with
  | @alloc new hnew =>
    rw [object?_alloc] at ho
    split at ho
    next hid =>
      cases ho
      exact .inr ⟨hid, line?_of_fresh hnew hglobals hl⟩
    next => exact .inl (by rw [Heap.line?, ho]; exact hl)
  | @put j old new hold c =>
    rw [object?_put] at ho
    split at ho
    next hj =>
      subst hj
      rw [hold] at ho
      cases ho
      exact .inl (by rw [Heap.line?, hold]; exact c.line?_eq.symm.trans hl)
    next => exact .inl (by rw [Heap.line?, ho]; exact hl)
  | relink hg => cases hbar.symm.trans hg
  | attributes v _ =>
    rw [object?_putAttributes] at ho
    exact .inl (by rw [Heap.line?, ho]; exact hl)

/-- Where nothing can be linked anew, no step takes the global environment away. -/
theorem HasGlobals.step (hbar : guard .relink = true) (hglobals : h.HasGlobals globals)
    (s : Step guard globals h h') : h'.HasGlobals globals := by
  obtain ⟨parent, hline⟩ := hglobals
  exact ⟨parent, s.line? hbar hline⟩

/-- What was there before a step reaches the end of its chain after it. -/
theorem Grounded.acc_of_step (hbar : guard .relink = true) (hg : h.Grounded)
    (hglobals : h.HasGlobals globals) (s : Step guard globals h h') (hid : id ≠ h.size) :
    Acc h'.ParentOf id := by
  induction id using hg.finite.induction with
  | _ id ih =>
    refine ⟨id, fun p hparent => ?_⟩
    obtain ⟨family, hline⟩ := hparent
    obtain hline | ⟨hsize, -⟩ := s.line?_inv hbar hglobals hline
    · -- The parent was there, so it is not what the step makes.
      obtain ⟨parent, hp⟩ := hg.akin hline
      exact ih p ⟨family, hline⟩ (Nat.ne_of_lt (lt_size_of_line? hp))
    · exact (hid hsize).elim

/-- A step keeps chains finite: a new object is at the lower end of its chain. -/
theorem Grounded.step (hbar : guard .relink = true) (hg : h.Grounded)
    (hglobals : h.HasGlobals globals) (s : Step guard globals h h') : h'.Grounded where
  akin hline := by
    have hparent : ∃ parent, h.line? _ = some (_, parent) :=
      match s.line?_inv hbar hglobals hline with
      | .inl hline => hg.akin hline
      | .inr ⟨_, hparent⟩ => hparent
    obtain ⟨parent, hp⟩ := hparent
    exact ⟨parent, s.line? hbar hp⟩
  finite := by
    refine ⟨fun id => ?_⟩
    by_cases hid : id = h.size
    · refine ⟨id, fun p hparent => ?_⟩
      obtain ⟨family, hline⟩ := hparent
      have hp : p < h.size := by
        obtain hline | ⟨-, parent, hp⟩ := s.line?_inv hbar hglobals hline
        · obtain ⟨parent, hp⟩ := hg.akin hline
          exact lt_size_of_line? hp
        · exact lt_size_of_line? hp
      exact hg.acc_of_step hbar hglobals s (Nat.ne_of_lt hp)
    · exact hg.acc_of_step hbar hglobals s hid

/-- A step keeps parents before what inherits from them. -/
theorem ParentsFirst.step (hbar : guard .relink = true) (hf : h.ParentsFirst)
    (hglobals : h.HasGlobals globals) (s : Step guard globals h h') : h'.ParentsFirst := by
  rintro p id ⟨family, hline⟩
  obtain hline | ⟨rfl, parent, hp⟩ := s.line?_inv hbar hglobals hline
  · exact hf p id ⟨family, hline⟩
  · exact lt_size_of_line? hp

/-- On grounded heaps nothing is its own ancestor. -/
theorem Grounded.irrefl (hg : h.Grounded) (id : ObjectId) : ¬Relation.TransGen h.ParentOf id id :=
  fun hself => hg.finite.transGen.irrefl.irrefl id hself

/-! ## The search -/

/-- The search for a key from an object on, as a loop takes it: it ends at the first object that
holds the key, ends without one where there is no parent, and goes on with the parent otherwise. -/
inductive Search (h : Heap) (k : Key) : ObjectId → Option ObjectId → Prop
  | found {id : ObjectId} {slots : Slots} {parent : Option ObjectId}
    (hlink : h.link? id = some (slots, parent)) (hk : slots.contains k = true) :
    Search h k id (some id)
  | missed {id : ObjectId} {slots : Slots} (hlink : h.link? id = some (slots, none))
    (hk : slots.contains k = false) : Search h k id none
  | onward {id p : ObjectId} {slots : Slots} {r : Option ObjectId}
    (hlink : h.link? id = some (slots, some p)) (hk : slots.contains k = false)
    (hp : Search h k p r) : Search h k id r

/-- An object is in the chain of another if it is that object or one of its ancestors. -/
def InChain (h : Heap) (x id : ObjectId) : Prop := Relation.ReflTransGen h.ParentOf x id

/-- Of the objects in a chain, the nearest one that holds a key: all others that hold it are among
its own ancestors. -/
structure NearestHolder (h : Heap) (k : Key) (id owner : ObjectId) : Prop where
  inChain : h.InChain owner id
  owns : h.owns k owner = true
  first : ∀ {x}, h.InChain x id → h.owns k x = true → h.InChain x owner

/-- What is in a chain is the object itself, or in the chain of its parent. -/
theorem InChain.cases_parent {x : ObjectId} {slots : Slots} {parent : Option ObjectId}
    (hlink : h.link? id = some (slots, parent)) (hx : h.InChain x id) :
    x = id ∨ ∃ p, parent = some p ∧ h.InChain x p := by
  obtain rfl | ⟨p, hxp, hparent⟩ := Relation.ReflTransGen.cases_tail hx
  · exact .inl rfl
  · obtain ⟨family, hline⟩ := hparent
    obtain ⟨slots', hlink'⟩ := exists_link?_of_line? hline
    rw [hlink] at hlink'
    cases hlink'
    exact .inr ⟨p, rfl, hxp⟩

section Search

variable {slots : Slots} {r : Option ObjectId}

/-- From what holds the key itself the search ends at once. -/
theorem search_held {parent : Option ObjectId} (hlink : h.link? id = some (slots, parent))
    (hk : slots.contains k = true) : h.Search k id r ↔ r = some id := by
  constructor
  · intro hr
    cases hr with
    | found => rfl
    | missed hlink' hk' | onward hlink' hk' =>
      rw [hlink] at hlink'
      cases hlink'
      rw [hk] at hk'
      cases hk'
  · rintro rfl
    exact .found hlink hk

/-- Without a parent to go on with it ends without a result. -/
theorem search_root (hlink : h.link? id = some (slots, none)) (hk : slots.contains k = false) :
    h.Search k id r ↔ r = none := by
  constructor
  · intro hr
    cases hr with
    | found hlink' hk' =>
      rw [hlink] at hlink'
      cases hlink'
      rw [hk] at hk'
      cases hk'
    | missed => rfl
    | onward hlink' =>
      rw [hlink] at hlink'
      cases hlink'
  · rintro rfl
    exact .missed hlink hk

/-- Otherwise it ends as it does from the parent. -/
theorem search_heir (hlink : h.link? id = some (slots, some p)) (hk : slots.contains k = false) :
    h.Search k id r ↔ h.Search k p r := by
  constructor
  · intro hr
    cases hr with
    | found hlink' hk' =>
      rw [hlink] at hlink'
      cases hlink'
      rw [hk] at hk'
      cases hk'
    | missed hlink' =>
      rw [hlink] at hlink'
      cases hlink'
    | onward hlink' _ hp =>
      rw [hlink] at hlink'
      cases hlink'
      exact hp
  · exact fun hp => .onward hlink hk hp

end Search

/-- The search ends with at most one result. -/
theorem Search.unique {r r' : Option ObjectId} (hr : h.Search k id r) (hr' : h.Search k id r') :
    r = r' := by
  induction hr with
  | found hlink hk => exact ((search_held hlink hk).mp hr').symm
  | missed hlink hk => exact ((search_root hlink hk).mp hr').symm
  | onward hlink hk _ ih => exact ih ((search_heir hlink hk).mp hr')

/-- On a grounded heap the search ends, from every object that has slots. -/
theorem Grounded.exists_search (hg : h.Grounded) (k : Key) {slots : Slots}
    {parent : Option ObjectId} (hlink : h.link? id = some (slots, parent)) :
    ∃ r, h.Search k id r := by
  -- The loop has no bound: the induction is along the chain, which is finite.
  induction id using hg.finite.induction generalizing slots parent with
  | _ id ih =>
    cases hk : slots.contains k with
    | true => exact ⟨some id, .found hlink hk⟩
    | false =>
      cases parent with
      | none => exact ⟨none, .missed hlink hk⟩
      | some p =>
        obtain ⟨family, hline⟩ := exists_line?_of_link? hlink
        obtain ⟨outer, hp⟩ := hg.akin hline
        obtain ⟨slots', hlink'⟩ := exists_link?_of_line? hp
        obtain ⟨r, hr⟩ := ih p ⟨family, hline⟩ hlink'
        exact ⟨r, .onward hlink hk hr⟩

/-- What the search ends with: the nearest object that holds the key, or nothing where none in the
chain does. -/
theorem Search.spec {r : Option ObjectId} (hr : h.Search k id r) :
    match r with
    | some owner => h.NearestHolder k id owner
    | none => ∀ {x}, h.InChain x id → h.owns k x = false := by
  induction hr with
  | found hlink hk =>
    exact ⟨.refl, by rw [owns_eq_contains hlink, hk], fun hx _ => hx⟩
  | @missed id slots hlink hk =>
    intro x hx
    obtain rfl | ⟨p, hp, -⟩ := hx.cases_parent hlink
    · rw [owns_eq_contains hlink, hk]
    · cases hp
  | @onward id p slots r hlink hk _ ih =>
    have hself : h.owns k id = false := by rw [owns_eq_contains hlink, hk]
    cases r with
    | none =>
      intro x hx
      obtain rfl | ⟨_, ⟨⟩, hx⟩ := hx.cases_parent hlink
      · exact hself
      · exact ih hx
    | some owner =>
      refine ⟨ih.inChain.tail (parentOf_of_link? hlink), ih.owns, ?_⟩
      intro x hx howns
      obtain rfl | ⟨_, ⟨⟩, hx⟩ := hx.cases_parent hlink
      · rw [hself] at howns
        cases howns
      · exact ih.first hx howns

/-- Of two nearest objects each is an ancestor of the other, so they are one. -/
theorem NearestHolder.unique (hg : h.Grounded) {o o' : ObjectId} (ho : h.NearestHolder k id o)
    (ho' : h.NearestHolder k id o') : o = o' := by
  have hfirst : h.InChain o' o := ho.first ho'.inChain ho'.owns
  have hsecond : h.InChain o o' := ho'.first ho.inChain ho.owns
  obtain rfl | hup := Relation.reflTransGen_iff_eq_or_transGen.mp hfirst
  · rfl
  · exact (hg.irrefl _ (hup.trans_left hsecond)).elim

/-- Where parents stand before their heirs, `owner?` is what the search ends with. -/
theorem ParentsFirst.search_owner? (hf : h.ParentsFirst) (hg : h.Grounded) (k : Key) {slots : Slots}
    {parent : Option ObjectId} (hlink : h.link? id = some (slots, parent)) :
    h.Search k id (h.owner? k id) := by
  obtain ⟨r, hr⟩ := hg.exists_search k hlink
  have howner : h.owner? k id = r := by
    clear hlink
    induction hr with
    | found hlink hk => rw [owner?, hlink]; exact if_pos hk
    | missed hlink hk => rw [owner?, hlink]; simp [hk]
    | onward hlink hk _ ih =>
      rw [owner?, hlink]
      have hp := hf _ _ (parentOf_of_link? hlink)
      simp [hk, hp, ih]
  rwa [howner]

/-! ## Heaps that steps lead to -/

/-- Steps of runs lead from a heap to another. -/
def Evolves (guard : Guard) (globals : ObjectId) : Heap → Heap → Prop :=
  Relation.ReflTransGen (Step guard globals)

/-- The parent of a record never changes. -/
theorem Evolves.recordLine? (hr : Evolves guard globals h h') {parent : Option ObjectId}
    (hline : h.line? id = some (.record, parent)) : h'.line? id = some (.record, parent) := by
  induction hr with
  | refl => exact hline
  | tail _ s ih =>
    obtain hline | ⟨-, hfamily⟩ := s.line?_or ih
    · exact hline
    · cases hfamily

section Barred

variable (hbar : guard .relink = true)

include hbar

/-- Nor do steps one after the other. -/
theorem Evolves.hasGlobals (hr : Evolves guard globals h h') (hglobals : h.HasGlobals globals) :
    h'.HasGlobals globals := by
  induction hr with
  | refl => exact hglobals
  | tail _ s ih => exact ih.step hbar s

/-- No line ever changes where environments keep their parents. -/
theorem Evolves.line? (hr : Evolves guard globals h h') {l : Family × Option ObjectId}
    (hline : h.line? id = some l) : h'.line? id = some l := by
  induction hr with
  | refl => exact hline
  | tail _ s ih => exact s.line? hbar ih

/-- Chains stay finite. -/
theorem Grounded.evolves (hg : h.Grounded) (hglobals : h.HasGlobals globals)
    (hr : Evolves guard globals h h') : h'.Grounded := by
  induction hr with
  | refl => exact hg
  | tail hr s ih => exact ih.step hbar (Evolves.hasGlobals hbar hr hglobals) s

/-- Parents stay before their heirs. -/
theorem ParentsFirst.evolves (hf : h.ParentsFirst) (hglobals : h.HasGlobals globals)
    (hr : Evolves guard globals h h') : h'.ParentsFirst := by
  induction hr with
  | refl => exact hf
  | tail hr s ih => exact ih.step hbar (Evolves.hasGlobals hbar hr hglobals) s

end Barred

/-- Every chain of a heap ends: nothing is its own ancestor, and every search in a chain has one
result, the nearest object that holds the key, or none where none does. -/
structure ChainsEnd (h : Heap) : Prop where
  irrefl : ∀ id, ¬Relation.TransGen h.ParentOf id id
  search : ∀ k id, (h.line? id).isSome → ∃! r, h.Search k id r
  nearest : ∀ k id owner, (h.line? id).isSome → (h.Search k id (some owner) ↔ h.NearestHolder k id owner)
  missing : ∀ k id, (h.line? id).isSome →
    (h.Search k id none ↔ ∀ x, h.InChain x id → h.owns k x = false)

/-- The chains of a grounded heap end. -/
theorem Grounded.chainsEnd (hg : h.Grounded) : h.ChainsEnd := by
  have hsearch : ∀ k id, (h.line? id).isSome → ∃ r, h.Search k id r := by
    intro k id hline
    obtain ⟨⟨family, parent⟩, hline⟩ := Option.isSome_iff_exists.mp hline
    obtain ⟨slots, hlink⟩ := exists_link?_of_line? hline
    exact hg.exists_search k hlink
  refine ⟨hg.irrefl, ?_, ?_, ?_⟩
  · intro k id hline
    obtain ⟨r, hr⟩ := hsearch k id hline
    exact ⟨r, hr, fun r' hr' => hr'.unique hr⟩
  · intro k id owner hline
    refine ⟨fun hr => hr.spec, fun hn => ?_⟩
    obtain ⟨r, hr⟩ := hsearch k id hline
    cases r with
    | none =>
      have hno : h.owns k owner = false := hr.spec hn.inChain
      rw [hn.owns] at hno
      cases hno
    | some found =>
      obtain rfl : found = owner := NearestHolder.unique hg hr.spec hn
      exact hr
  · intro k id hline
    refine ⟨fun hr x hx => hr.spec hx, fun hno => ?_⟩
    obtain ⟨r, hr⟩ := hsearch k id hline
    cases r with
    | none => exact hr
    | some found =>
      have hn : h.NearestHolder k id found := hr.spec
      have howns := hn.owns
      rw [hno found hn.inChain] at howns
      cases howns

end Heap

/-! ## Runs -/

namespace Machine

variable {m : Machine}

/-- That steps lead from the heap of a machine to another heap, as an invariant of its runs. -/
def evolving (guard : Guard) (m : Machine) : Invariant :=
  .ofHeap guard m.globals (Heap.Evolves guard m.globals m.heap) fun hr s => hr.tail s

/-- A machine has evolved from itself. -/
theorem evolving_self (guard : Guard) (m : Machine) : (m.evolving guard).holds m := ⟨rfl, .refl⟩

/-- Everything that is done with a runner is done by steps. -/
theorem evolves_uses {guard : Guard} (m : Machine) {uses : List Use}
    (hs : Use.Straight guard m uses) :
    Heap.Evolves guard m.globals m.heap (Use.machines m uses).heap :=
  (Use.holds_machines (m.evolving guard) (m.evolving_self guard) hs).2

/-- So is what an action does that goes in lockstep with a guarded one. -/
theorem evolves_of_paired {guard : Guard} (m : Machine) {x y : Run Value}
    (hxy : ∀ h, (Pairing.level (m.evolving guard)).Paired h x y) :
    Run.Detoured guard (on x m) ∨ Heap.Evolves guard m.globals m.heap (on y m).2.heap := by
  rcases (m.evolving guard).of_paired hxy (m.evolving_self guard) with hp | ⟨-, hi, -⟩
  · exact .inl hp
  · exact .inr hi.2

/-- So is the evaluation of a program, at any depth of calls and in any environment. -/
theorem evolves_run (guard : Guard) (m : Machine) (depth : Nat) (env : Value) (program : Node) :
    Run.Detoured guard (on (Eval.run (guarded guard depth) env program) m)
      ∨ Heap.Evolves guard m.globals m.heap (on (Eval.run (invoke depth) env program) m).2.heap :=
  m.evolves_of_paired fun _ =>
    Pairing.paired_run ((Pairing.level (m.evolving guard)).callers_guarded depth) env program

/-- So is a call. -/
theorem evolves_invoke (guard : Guard) (m : Machine) (depth : Nat) (f : Value)
    (arguments : List Value) :
    Run.Detoured guard (on (guarded guard depth f arguments) m)
      ∨ Heap.Evolves guard m.globals m.heap (on (invoke depth f arguments) m).2.heap :=
  m.evolves_of_paired fun _ =>
    (Pairing.level (m.evolving guard)).callers_guarded depth f arguments _

end Machine

/-! ## Runners that were set up -/

/-- What a runner has when it was set up: finite chains that go down, and the global environment as
the end of its own. -/
structure Heap.SetUp (h : Heap) : Prop where
  grounded : h.Grounded
  parentsFirst : h.ParentsFirst
  globals : h.line? Machine.blank.globals = some (.environment, none)

/-- The guard under which environments keep their parents. -/
def fixed : Guard := .of [.relink]

/-- The guard bars linking anew. -/
theorem fixed_relink : fixed .relink = true := rfl

namespace Heap.SetUp

variable {h h' : Heap}

/-- A heap that is set up has the global environment. -/
theorem hasGlobals (hs : h.SetUp) : h.HasGlobals Machine.blank.globals := ⟨none, hs.globals⟩

/-- Steps keep a heap set up, where nothing can be linked anew. -/
theorem step {guard : Guard} (hbar : guard .relink = true) (hs : h.SetUp)
    (s : Step guard Machine.blank.globals h h') : h'.SetUp :=
  ⟨hs.grounded.step hbar hs.hasGlobals s, hs.parentsFirst.step hbar hs.hasGlobals s,
    s.line? hbar hs.globals⟩

/-- Giving the global environment its bindings is a step. -/
theorem bind (hs : h.SetUp) (bindings : Slots) :
    (h.put Machine.blank.globals (.environment bindings none)).SetUp := by
  obtain ⟨o, ho, hline⟩ := Option.bind_eq_some_iff.mp hs.globals
  cases o with
  | environment before parent =>
    cases hline
    exact hs.step fixed_relink (.put ho (.bindings before bindings none))
  | _ => cases hline

/-- On the heap of a machine that is not set up nothing has a parent. -/
theorem blank : Machine.blank.heap.SetUp := by
  have hnone : ∀ {p id}, ¬Machine.blank.heap.ParentOf p id := by
    rintro p id ⟨family, hline⟩
    have hid : id < 4 := lt_size_of_line? hline
    match id, hid with
    | 0, _ | 1, _ | 2, _ | 3, _ => cases hline
  exact ⟨⟨fun hline => (hnone ⟨_, hline⟩).elim, ⟨fun id => ⟨id, fun p hp => (hnone hp).elim⟩⟩⟩,
    fun _ _ hp => (hnone hp).elim, rfl⟩

end Heap.SetUp

/-- Every runner starts with finite chains that go down. -/
theorem Runner.setUp_start (config : Config) : (on (start config) Machine.blank).2.heap.SetUp :=
  (holds_start _ (Heap.SetUp.step fixed_relink) (fun bindings hs => hs.bind bindings) .blank config).1

/-! ## Chains end -/

/-- A machine with a record, a record that inherits from it, a program that gives the first one a
slot with the name `parent`, which holds the second, an environment inside the global one, and a
program that sets the attribute `parent` of that environment to null. -/
def withParentSlot : Machine :=
  let (root, heap) := Machine.blank.heap.alloc (.record .plain .empty none false)
  let (heir, heap) := heap.alloc (.record .plain .empty (some root) false)
  let (_, heap) := heap.alloc (.node (.assign
    (.member (.value (.object root)) (.str "parent") none) (.literal (.object heir) none) none))
  let (env, heap) := heap.alloc (.environment .empty (some Machine.blank.globals))
  let (_, heap) := heap.alloc (.node (.assign
    (.member (.value (.object env)) (.str "parent") none) (.literal .null none) none))
  { Machine.blank with heap }

end ChainScript
