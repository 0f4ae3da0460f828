import Mathlib.Logic.Function.Basic
import ChainScript.Proofs.Inside

/-!
# Runners beside each other

The runners of a host have a machine each, but all of them stand on one heap. What they share are
the reserved symbols, the undefined value and the functions that are there from the start: a program
comes to these very values from every global environment, and they take attributes, so a program of
one runner can leave something on them that a program of another one finds.

Nothing else is shared as long as the host binds no object in two runners. Whatever is made for a
runner is made in a place of its own, and a program reaches nothing but what its runner holds. So if
no runner, left to itself, changes the shared values, then however the tasks of the runners are
interleaved, each of them answers as if it were alone, with its objects in other places.
-/

namespace ChainScript

/-- The heap as another one has become, with the functions of classes that it has itself. -/
def Heap.following (h h' : Heap) : Heap := { h' with classParts := h.classParts }

/-- Runners with a machine each, all on one heap. Each of them knows the functions of those classes
that the host has made objects of for it. -/
structure World (ι : Type) where
  machine : ι → Machine
  cells : ∀ s t, (machine s).heap.cells = (machine t).heap.cells
  attributes : ∀ s t, (machine s).heap.sharedAttributes = (machine t).heap.sharedAttributes

/-- What a list says about one runner. -/
def own {ι α : Type} [DecidableEq ι] (s : ι) (l : List (ι × α)) : List α :=
  l.filterMap fun (t, a) => if t = s then some a else none

section

variable {ι α : Type} [DecidableEq ι] {s t : ι}

/-- What a list says about a runner begins with what it says first, if that is about it. -/
theorem own_cons_self (s : ι) (a : α) (l : List (ι × α)) : own s ((s, a) :: l) = a :: own s l := by
  simp [own]

/-- What a list says first about another runner it does not say about this one. -/
theorem own_cons_of_ne (hts : t ≠ s) (a : α) (l : List (ι × α)) :
    own t ((s, a) :: l) = own t l := by
  simp [own, hts.symm]

end

namespace World

variable {ι : Type} [DecidableEq ι]

/-- The world after a runner has carried a task out. The others find the heap as it has become. -/
def perform (w : World ι) (s : ι) (task : Task) : World ι where
  machine t :=
    if t = s then task.machine (w.machine s)
    else { w.machine t with
      heap := (w.machine t).heap.following (task.machine (w.machine s)).heap }
  cells := by
    have hcells : ∀ t, (if t = s then task.machine (w.machine s)
        else { w.machine t with
          heap := (w.machine t).heap.following (task.machine (w.machine s)).heap }).heap.cells
          = (task.machine (w.machine s)).heap.cells := by
      intro t
      split <;> rfl
    exact fun t u => (hcells t).trans (hcells u).symm
  attributes := by
    have hattributes : ∀ t, (if t = s then task.machine (w.machine s)
        else { w.machine t with
          heap := (w.machine t).heap.following (task.machine (w.machine s)).heap }).heap.sharedAttributes
          = (task.machine (w.machine s)).heap.sharedAttributes := by
      intro t
      split <;> rfl
    exact fun t u => (hattributes t).trans (hattributes u).symm

/-- The world after runners have carried out tasks, in the given order. -/
def run (w : World ι) (steps : List (ι × Task)) : World ι :=
  steps.foldl (fun w step => w.perform step.1 step.2) w

/-- How the tasks of the runners end, in the given order. -/
def endings (w : World ι) : List (ι × Task) → List (ι × Ending)
  | [] => []
  | (s, task) :: rest => (s, task.ending (w.machine s)) :: (w.perform s task).endings rest

variable {w : World ι} {s t : ι}

/-- A runner that carries out a task has the machine that the task leaves. -/
theorem perform_self (task : Task) : (w.perform s task).machine s = task.machine (w.machine s) :=
  if_pos rfl

/-- Another runner has its machine with the heap as the task leaves it. -/
theorem perform_of_ne (hts : t ≠ s) (task : Task) :
    (w.perform s task).machine t = { w.machine t with
      heap := (w.machine t).heap.following (task.machine (w.machine s)).heap } :=
  if_neg hts

omit [DecidableEq ι] in
/-- All runners see as many objects. -/
theorem size_eq (w : World ι) (s t : ι) : (w.machine s).heap.size = (w.machine t).heap.size :=
  congrArg Array.size (w.cells s t)

/-! ## Runners that are alone -/

/-- The machines of runners that are alone, after a task of one of them. -/
def alongside (alone : ι → Machine) (s : ι) (task : Task) : ι → Machine :=
  Function.update alone s (task.machine (alone s))

section

variable {alone : ι → Machine} {task : Task}

/-- The runner that carried out the task has the machine that it leaves. -/
theorem alongside_self : alongside alone s task s = task.machine (alone s) :=
  Function.update_self ..

/-- The others have the machines that they had. -/
theorem alongside_of_ne (hts : t ≠ s) : alongside alone s task t = alone t :=
  Function.update_of_ne hts ..

/-- No runner has fewer objects after a task. -/
theorem size_le_alongside (t : ι) :
    (alone t).heap.size ≤ (alongside alone s task t).heap.size := by
  by_cases hts : t = s
  · subst hts
    rw [alongside_self]
    exact task.size_le_machine (alone t)
  · rw [alongside_of_ne hts]

/-- The tasks of each runner go on from the machines that the first task leaves. -/
theorem machines_own_cons (rest : List (ι × Task)) (t : ι) :
    Task.machines (alone t) (own t ((s, task) :: rest))
      = Task.machines (alongside alone s task t) (own t rest) := by
  by_cases hts : t = s
  · subst hts
    rw [own_cons_self, alongside_self]
    rfl
  · rw [own_cons_of_ne hts, alongside_of_ne hts]

/-- No runner that is alone changes what all of them share, between its tasks. -/
def KeepShared (alone : ι → Machine) (steps : List (ι × Task)) : Prop :=
  ∀ s tasks, tasks <+: own s steps → (alone s).heap.SharesWith (Task.machines (alone s) tasks).heap

/-- The first task changes nothing that is shared. -/
theorem KeepShared.first {rest : List (ι × Task)} (hk : KeepShared alone ((s, task) :: rest)) :
    (alone s).heap.SharesWith (task.machine (alone s)).heap := by
  refine hk s [task] ?_
  rw [own_cons_self]
  exact ⟨own s rest, rfl⟩

/-- Nor do the tasks after it. -/
theorem KeepShared.rest {rest : List (ι × Task)} (hk : KeepShared alone ((s, task) :: rest)) :
    KeepShared (alongside alone s task) rest := by
  intro t tasks htasks
  by_cases hts : t = s
  · subst hts
    have hall := hk t (task :: tasks) (by
      rw [own_cons_self]
      exact (List.prefix_cons_inj task).mpr htasks)
    rw [alongside_self]
    exact hk.first.symm.trans hall
  · rw [alongside_of_ne hts]
    exact hk t tasks (by rwa [own_cons_of_ne hts])

end

/-! ## Runners that are apart -/

/-- The runners have nothing in common but what all runners share: each is the given machine inside
the heap of the world, with its objects in places of its own. -/
structure Apart (w : World ι) (ρ : ι → Renaming) (alone : ι → Machine) : Prop where
  inside : ∀ s, (alone s).Inside (ρ s) (w.machine s)
  apart : ∀ s t, s ≠ t → ∀ i < (alone s).heap.size, ∀ j < (alone t).heap.size,
    ρ s i = ρ t j → ∃ kind : AccessKind, i = kind.symbol

namespace Apart

variable {ρ : ι → Renaming} {alone : ι → Machine} {task : Task}

/-- The renamings after a task of one runner, which puts what it makes at the end of the heap. -/
def onward (ha : w.Apart ρ alone) (s : ι) : ι → Renaming :=
  Function.update ρ s (ha.inside s).onward

/-- The runner that carried out the task has what it made at the end of the heap. -/
theorem onward_self (ha : w.Apart ρ alone) : ha.onward s s = (ha.inside s).onward :=
  Function.update_self ..

/-- The others have their objects where they were. -/
theorem onward_of_ne (ha : w.Apart ρ alone) (hts : t ≠ s) : ha.onward s t = ρ t :=
  Function.update_of_ne hts ..

/-- What was there before the task stays in its place. -/
theorem onward_old (ha : w.Apart ρ alone) (s : ι) {t : ι} {id : ObjectId}
    (hid : id < (alone t).heap.size) : ha.onward s t id = ρ t id := by
  by_cases hts : t = s
  · subst hts
    rw [ha.onward_self]
    exact (ha.inside t).extends_onward.old id hid
  · rw [ha.onward_of_ne hts]

omit [DecidableEq ι] in
/-- What a runner makes stands past everything that another one holds. -/
theorem old_of_onward_eq (ha : w.Apart ρ alone) {i j : ObjectId} (hj : j < (alone t).heap.size)
    (hij : (ha.inside s).onward i = ρ t j) : i < (alone s).heap.size ∧ ρ s i = ρ t j := by
  have hplace := (ha.inside t).place_lt j hj
  rw [w.size_eq t s, ← hij] at hplace
  have hold : i < (alone s).heap.size := by
    by_contra hge
    exact absurd ((ha.inside s).extends_onward.new i (Nat.le_of_not_lt hge)) (Nat.not_le.mpr hplace)
  exact ⟨hold, by rw [← hij, (ha.inside s).extends_onward.old i hold]⟩

/-- A runner that carries out a task leaves the objects of the others as they are. -/
theorem inside_of_ne (ha : w.Apart ρ alone) (hts : t ≠ s) (hwithin : task.Within (alone s).heap)
    (hshares : (alone s).heap.SharesWith (task.machine (alone s)).heap) :
    (alone t).Inside (ρ t) ((w.perform s (rename (ρ s) task)).machine t) := by
  have hin := ha.inside s
  have hsame := hin.sharesWith hwithin hshares
  have hsymbols := (hin.copy _ hin.extends_onward).heap.hasSymbols hin.symbols
  have hcells := w.cells t s
  have hsize := w.size_eq t s
  rw [perform_of_ne hts]
  refine (ha.inside t).elsewhere ?_ (fun id hid => ?_)
    (fun v hv => ?_) rfl
  · rw [hsize]
    exact hin.size_le hwithin
  · rw [hcells]
    by_cases hsymbol : ∃ kind : AccessKind, id = kind.symbol
    · obtain ⟨kind, rfl⟩ := hsymbol
      rw [Renaming.apply_symbol]
      exact hsame.cell hsymbols kind
    · -- The object is none of those that the runner holds, and it was there before.
      have hplace : ρ t id < (w.machine s).heap.size := by
        rw [← hsize]
        exact (ha.inside t).place_lt id hid
      refine (hin.grown hwithin).kept (ρ t id) hplace fun i hi => ?_
      obtain ⟨hold, hi⟩ := ha.old_of_onward_eq hid hi
      exact hsymbol (ha.apart t s hts id hid i hold hi.symm)
  · -- What is no object has the attributes that the runner left it, and the runner left
    -- them as they were.
    calc _ = ((rename (ρ s) task).machine (w.machine s)).heap.attributes v :=
          Heap.attributes_of_shared rfl hv
      _ = (w.machine s).heap.attributes v := hsame.attributes v hv
      _ = (w.machine t).heap.attributes v := Heap.attributes_of_shared (w.attributes s t) hv

/-- A task of one runner leaves the runners apart. -/
theorem perform (ha : w.Apart ρ alone) (s : ι) (hwithin : task.Within (alone s).heap)
    (hshares : (alone s).heap.SharesWith (task.machine (alone s)).heap) :
    (w.perform s (rename (ρ s) task)).Apart (ha.onward s) (alongside alone s task) := by
  refine ⟨fun t => ?_, fun t u htu i hi j hj hij => ?_⟩
  · by_cases hts : t = s
    · subst hts
      rw [ha.onward_self, alongside_self, perform_self]
      exact (ha.inside t).after_task hwithin hshares
    · rw [ha.onward_of_ne hts, alongside_of_ne hts]
      exact ha.inside_of_ne hts hwithin hshares
  · by_cases hts : t = s
    · subst hts
      rw [alongside_of_ne htu.symm] at hj
      rw [ha.onward_self, ha.onward_of_ne htu.symm] at hij
      obtain ⟨hold, hij⟩ := ha.old_of_onward_eq hj hij
      exact ha.apart t u htu i hold j hj hij
    · rw [alongside_of_ne hts] at hi
      by_cases hus : u = s
      · subst hus
        rw [ha.onward_of_ne hts, ha.onward_self] at hij
        obtain ⟨hold, hij⟩ := ha.old_of_onward_eq hi hij.symm
        exact ha.apart t u htu i hi j hold hij.symm
      · rw [alongside_of_ne hus] at hj
        rw [ha.onward_of_ne hts, ha.onward_of_ne hus] at hij
        exact ha.apart t u htu i hi j hj hij

/-- A renaming that goes on after a task goes on from before it, and tells what became of the end of
the task. -/
theorem extends_of_onward (ha : w.Apart ρ alone) (hwithin : task.Within (alone s).heap)
    {τ : Renaming}
    (hτ : τ.Extends (ha.onward s t) (alongside alone s task t).heap.size
      ((w.perform s (rename (ρ s) task)).machine t).heap.size) :
    τ.Extends (ρ t) (alone t).heap.size (w.machine t).heap.size
      ∧ (t = s → (rename (ρ s) task).ending (w.machine s) = rename τ (task.ending (alone s))) := by
  have hsize := (ha.inside s).size_le hwithin
  by_cases hts : t = s
  · subst hts
    rw [ha.onward_self, alongside_self, perform_self] at hτ
    have hext := (ha.inside t).extends_onward.trans hτ (task.size_le_machine _) hsize
    exact ⟨hext, fun _ => ((ha.inside t).follows hwithin hsize hτ).2.2⟩
  · rw [ha.onward_of_ne hts, alongside_of_ne hts, perform_of_ne hts] at hτ
    refine ⟨hτ.weaken ?_, fun h => absurd h hts⟩
    rw [w.size_eq t s]
    exact hsize

/-- Whatever order the tasks of runners that are apart are done in, each runner ends its tasks as
its machine does alone, with its objects in other places, and is left as that machine. The induction
is on the tasks; it goes on from the runners as the first task leaves them. -/
theorem run (ha : w.Apart ρ alone) {steps : List (ι × Task)}
    (hwithin : ∀ step ∈ steps, step.2.Within (alone step.1).heap)
    (hshares : KeepShared alone steps) :
    ∃ τ : ι → Renaming, ∀ s,
      (τ s).Extends (ρ s) (alone s).heap.size (w.machine s).heap.size
        ∧ own s (w.endings (steps.map fun (t, task) => (t, rename (ρ t) task)))
          = (Task.endings (alone s) (own s steps)).map (rename (τ s))
        ∧ (Task.machines (alone s) (own s steps)).Copy (τ s)
          ((w.run (steps.map fun (t, task) => (t, rename (ρ t) task))).machine s) := by
  induction steps generalizing w ρ alone with
  | nil =>
    refine ⟨fun s => (ha.inside s).onward, fun s => ⟨(ha.inside s).extends_onward, rfl, ?_⟩⟩
    exact (ha.inside s).copy _ (ha.inside s).extends_onward
  | cons step rest ih =>
    obtain ⟨s, task⟩ := step
    have htask : task.Within (alone s).heap := hwithin (s, task) List.mem_cons_self
    have hrest : ∀ step ∈ rest, step.2.Within (alone step.1).heap :=
      fun step hstep => hwithin step (List.mem_cons_of_mem _ hstep)
    -- What the host hands over was there from the beginning, so it is renamed as it was then.
    have hsteps : (rest.map fun (t, task) => (t, rename (ha.onward s t) task))
        = rest.map fun (t, task) => (t, rename (ρ t) task) :=
      List.map_congr_left fun step hstep => congrArg (Prod.mk step.1)
        (Task.rename_congr (hrest step hstep) fun id hid => ha.onward_old s hid)
    obtain ⟨τ, hτ⟩ := ih (ha.perform s htask hshares.first)
      (fun step hstep id hid =>
        Nat.lt_of_lt_of_le (hrest step hstep id hid) (size_le_alongside step.1))
      hshares.rest
    refine ⟨τ, fun t => ?_⟩
    obtain ⟨hext, hend, hcopy⟩ := hτ t
    rw [hsteps] at hend hcopy
    obtain ⟨hext, hfirst⟩ := ha.extends_of_onward htask hext
    refine ⟨hext, ?_, by rwa [machines_own_cons]⟩
    rw [List.map_cons, endings]
    by_cases hts : t = s
    · subst hts
      rw [alongside_self] at hend
      rw [own_cons_self, own_cons_self, hend, hfirst rfl]
      rfl
    · rw [alongside_of_ne hts] at hend
      rw [own_cons_of_ne hts, own_cons_of_ne hts]
      exact hend

end Apart

end World

/-- Runners are isolated as long as none of them, left to itself, changes what all of them share.
However the tasks of runners that hold no object in common are interleaved, each runner ends its
tasks with the same answers and faults as it does alone, and with the same bindings and the same
machine, up to the places of its objects. -/
theorem runners_are_isolated {ι : Type} [DecidableEq ι] {w : World ι} {ρ : ι → Renaming}
    {alone : ι → Machine} (ha : w.Apart ρ alone) {steps : List (ι × Task)}
    (hwithin : ∀ step ∈ steps, step.2.Within (alone step.1).heap)
    (hshares : World.KeepShared alone steps) :
    let together := steps.map fun (s, task) => (s, rename (ρ s) task)
    ∃ τ : ι → Renaming, ∀ s,
      (∀ id < (alone s).heap.size, τ s id = ρ s id)
        ∧ own s (w.endings together) = (Task.endings (alone s) (own s steps)).map (rename (τ s))
        ∧ ((w.run together).machine s).bindings?
          = (Task.machines (alone s) (own s steps)).bindings?.map (rename (τ s))
        ∧ (Task.machines (alone s) (own s steps)).Copy (τ s) ((w.run together).machine s) := by
  obtain ⟨τ, hτ⟩ := ha.run hwithin hshares
  refine ⟨τ, fun s => ?_⟩
  obtain ⟨hext, hend, hcopy⟩ := hτ s
  exact ⟨hext.old, hend, hcopy.bindings?, hcopy⟩

/-! ## Two runners -/

/-- The renaming that leaves the reserved symbols alone and moves every other object up. -/
def Renaming.past (n : Nat) : Renaming where
  place id := if id < 3 then id else id + n
  strictMono := by
    have hlt : ∀ i j : Nat, i < j → (if i < 3 then i else i + n) < if j < 3 then j else j + n := by
      intro i j hij
      split <;> split <;> omega
    exact hlt
  place_symbol kind := by cases kind <;> rfl

namespace World

/-- A machine that is not set up, with a program at hand. -/
def holding (program : Node) : Machine :=
  { Machine.blank with heap := (Machine.blank.heap.alloc (.node program)).2 }

/-- Two runners that are not set up, each with a program of its own at hand. -/
def pair (program : Bool → Node) : World Bool :=
  let heap := (((holding (program false)).heap.alloc (.environment .empty none)).2.alloc
    (.node (program true))).2
  { machine := fun s => { Machine.blank with heap, globals := if s then 5 else 3 }
    cells := fun _ _ => rfl
    attributes := fun _ _ => rfl }

/-- Either runner stands inside the heap that both are on. -/
theorem pair_inside {program : Bool → Node} (hprogram : ∀ σ s, rename σ (program s) = program s)
    (s : Bool) :
    (holding (program s)).Inside (.past (if s then 2 else 0)) ((pair program).machine s) := by
  have hcells : ∀ {σ : Renaming}, σ.Extends (.past (if s then 2 else 0)) 5 7 → ∀ id,
      Option.Rel (Cell.Copy σ) (holding (program s)).heap.cells[id]?
        ((pair program).machine s).heap.cells[σ id]? := by
    intro σ hσ id
    have hnode := Object.Copy.node (ρ := σ) (program s)
    rw [hprogram σ s] at hnode
    match id with
    | 0 | 1 | 2 =>
      rw [hσ.old _ (by decide)]
      exact .some ⟨.symbol _, rfl⟩
    | 3 =>
      rw [hσ.old _ (by decide)]
      cases s <;> exact .some ⟨.environment .empty none, rfl⟩
    | 4 =>
      rw [hσ.old _ (by decide)]
      cases s <;> exact .some ⟨hnode, rfl⟩
    | id + 5 =>
      have hnone : (holding (program s)).heap.cells[id + 5]? = none :=
        Array.getElem?_eq_none (Nat.le_add_left 5 id)
      have hnone' : ((pair program).machine s).heap.cells[σ (id + 5)]? = none :=
        Array.getElem?_eq_none (hσ.new (id + 5) (Nat.le_add_left 5 id))
      rw [hnone, hnone']
      exact .none
  refine ⟨fun kind => ?_, fun id hid => ?_, fun σ hσ =>
    ⟨⟨hcells hσ, fun v hv => ?_, fun part => rfl⟩, ?_⟩⟩
  · cases kind <;> rfl
  · have hid : (id : Nat) < 5 := hid
    have hup : (if s then 2 else 0) ≤ 2 := by cases s <;> decide
    show (if (id : Nat) < 3 then (id : Nat) else id + if s then 2 else 0) < 7
    generalize (if s then 2 else 0) = up at hup ⊢
    split <;> omega
  · cases v with
    | object id => cases hv
    | _ => rfl
  · have hglobals := hσ.old 3 (show (3 : Nat) < 5 by decide)
    show Machine.mk .. = Machine.mk ..
    congr 1
    cases s <;> exact hglobals.symm

/-- The two runners have nothing in common but what all runners share. -/
theorem pair_apart {program : Bool → Node} (hprogram : ∀ σ s, rename σ (program s) = program s) :
    (pair program).Apart (fun s => .past (if s then 2 else 0)) fun s => holding (program s) := by
  refine ⟨pair_inside hprogram, fun s t hst i hi j hj hij => ?_⟩
  have hsymbol : (i : Nat) < 3 := by
    have hi : (i : Nat) < 5 := hi
    have hj : (j : Nat) < 5 := hj
    have hij : (if (i : Nat) < 3 then (i : Nat) else i + if s then 2 else 0)
        = if (j : Nat) < 3 then (j : Nat) else j + if t then 2 else 0 := hij
    obtain ⟨hs, ht⟩ | ⟨hs, ht⟩ : s = false ∧ t = true ∨ s = true ∧ t = false := by
      cases s <;> cases t <;> simp_all
    all_goals
      subst hs ht
      simp only [Bool.false_eq_true, ite_true, ite_false] at hij
      split at hij <;> split at hij <;> omega
  match i, hsymbol with
  | 0, _ => exact ⟨.get, rfl⟩
  | 1, _ => exact ⟨.set, rfl⟩
  | 2, _ => exact ⟨.delete, rfl⟩

/-- Both runners are set up and run their programs. -/
def setUpAndRun : List (Bool × Task) :=
  [(false, .start {}), (true, .start {}), (false, .run (.object 4)), (true, .run (.object 4))]

/-- The steps name nothing but the program that each runner holds. -/
theorem within_setUpAndRun {program : Bool → Node} :
    ∀ step ∈ setUpAndRun, step.2.Within (holding (program step.1)).heap := by
  intro step hstep id hid
  simp [setUpAndRun] at hstep
  rcases hstep with rfl | rfl | rfl | rfl <;> simp [Task.values, Registry.builtinNames] at hid
  all_goals
    subst hid
    exact Nat.lt_succ_self 4

/-- Programs that give the same name different values. -/
def differing (s : Bool) : Node :=
  .program [.assign (.identifier (.str "x") none) (.literal (.bool s) none) none] false none

/-- Runners that both give a value to the same name are apart, and isolated: each finds its own
value under the name in the end. -/
theorem differing_are_isolated :
    let w := pair differing
    let ρ : Bool → Renaming := fun s => .past (if s then 2 else 0)
    let alone : Bool → Machine := fun s => holding (differing s)
    let together := setUpAndRun.map fun (s, task) => (s, rename (ρ s) task)
    (∀ s, (((w.run together).machine s).bindings?.bind fun bindings =>
        Slots.value? bindings (.str "x")) = some (.bool s))
      ∧ ∃ τ : Bool → Renaming, ∀ s,
        (∀ id < (alone s).heap.size, τ s id = ρ s id)
          ∧ own s (w.endings together)
            = (Task.endings (alone s) (own s setUpAndRun)).map (rename (τ s))
          ∧ ((w.run together).machine s).bindings?
            = (Task.machines (alone s) (own s setUpAndRun)).bindings?.map (rename (τ s))
          ∧ (Task.machines (alone s) (own s setUpAndRun)).Copy (τ s)
            ((w.run together).machine s) := by
  have hprogram : ∀ σ s, rename σ (differing s) = differing s := fun σ s => rfl
  refine ⟨by decide +kernel, runners_are_isolated (pair_apart hprogram) within_setUpAndRun ?_⟩
  intro s tasks htasks
  have hown : own s setUpAndRun = [.start {}, .run (.object 4)] := by cases s <;> rfl
  rw [hown] at htasks
  simp [List.prefix_cons_iff] at htasks
  rcases htasks with rfl | ⟨_, rfl, rfl | rfl⟩
  all_goals cases s <;> exact .of_eq (by decide +kernel) (by decide +kernel)

/-- One runner leaves a mark on a reserved symbol, and the other one looks for it. -/
def marking : Bool → Node
  | false => .program [.assign (.member (.identifier (.str "VGET") none) (.str "tag") none)
      (.literal (.int 1) none) none] false none
  | true => .program [.member (.identifier (.str "VGET") none) (.str "tag") none] false none

/-- Where a runner leaves a mark on a reserved symbol, another one finds it, which it would not
alone: runners that have nothing else in common are not isolated. -/
theorem mark_on_symbol_is_found :
    let w := pair marking
    let ρ : Bool → Renaming := fun s => .past (if s then 2 else 0)
    let alone : Bool → Machine := fun s => holding (marking s)
    let together := setUpAndRun.map fun (s, task) => (s, rename (ρ s) task)
    w.Apart ρ alone ∧ (∀ step ∈ setUpAndRun, step.2.Within (alone step.1).heap)
      ∧ ¬∃ τ : Bool → Renaming, ∀ s,
        own s (w.endings together)
          = (Task.endings (alone s) (own s setUpAndRun)).map (rename (τ s)) := by
  have hprogram : ∀ σ s, rename σ (marking s) = marking s := fun σ s => by cases s <;> rfl
  refine ⟨pair_apart hprogram, within_setUpAndRun, ?_⟩
  rintro ⟨τ, hτ⟩
  have halone : (Task.endings (holding (marking true)) (own true setUpAndRun)).map Ending.value?
      = [none, some .undefined] := by
    decide +kernel
  have htogether : (own true ((pair marking).endings (setUpAndRun.map fun (s, task) =>
      (s, rename (.past (if s then 2 else 0)) task)))).map Ending.value? = [none, some (.int 1)] := by
    decide +kernel
  rw [hτ true, Ending.values_rename, halone] at htogether
  cases htogether

end World

end ChainScript
