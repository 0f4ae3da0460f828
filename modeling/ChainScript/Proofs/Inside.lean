import ChainScript.Proofs.MirrorRun

/-!
# Machines inside other heaps

A host has a runner carry out tasks: set itself up, bind a value, attach handlers, run a program.
`Machine.Inside ρ m m'` says that the machine `m` of a runner stands on a heap together with other
things, as `m'`: there is a copy of it there, and it holds nothing else of that heap. Then its tasks
do there what they do on `m`. What the machine makes goes to the end of the heap, and of what was
there only its own objects change, so a machine stays inside a heap on which others work, as long as
they do not touch its objects.

The reserved symbols stand in the same places for every machine, and the undefined value and the
functions that are there from the start are the same for all of them. `Heap.SharesWith` says that a
heap has these symbols and the attributes of these values as another one does.
-/

namespace ChainScript

open Run (on)

/-! ## Tasks -/

/-- What a host has a runner do. -/
inductive Task where
  | start (config : Config)
  | bind (name : String) (v : Value)
  | attach (target onGet onSet onDelete : Value)
  | run (tree : Value)
  | execute (tree : Value)

/-- What a host gets from a runner that was not stopped. -/
inductive Answer where
  | done
  | value (v : Value)
  | report (r : Report)

/-- How a task ends: with an answer, with what stopped the runner and the message of it, or where it
asked the host for what is not described. -/
inductive Ending where
  | answer (a : Answer)
  | fault (fault : Fault) (message : Printed (Option String))
  | outside (detour : Option Detour)

instance : Renamed Task where
  rename ρ
    | .start config => .start (rename ρ config)
    | .bind name v => .bind name (rename ρ v)
    | .attach target onGet onSet onDelete =>
      .attach (rename ρ target) (rename ρ onGet) (rename ρ onSet) (rename ρ onDelete)
    | .run tree => .run (rename ρ tree)
    | .execute tree => .execute (rename ρ tree)

instance : Renamed Answer where
  rename ρ
    | .done => .done
    | .value v => .value (rename ρ v)
    | .report r => .report (rename ρ r)

instance : Renamed Ending where
  rename ρ
    | .answer a => .answer (rename ρ a)
    | .fault fault message => .fault (rename ρ fault) message
    | .outside detour => .outside detour

/-- The value that a task ends with. -/
def Ending.value? : Ending → Option Value
  | .answer (.value v) => some v
  | _ => none

/-- The values that renamed endings come to are the renamed values. -/
theorem Ending.values_rename {ρ : Renaming} (endings : List Ending) :
    (endings.map (rename ρ)).map value? = (endings.map value?).map (Option.map (rename ρ)) := by
  rw [List.map_map, List.map_map]
  refine List.map_congr_left fun e _ => ?_
  rcases e with (_ | v | r) | _ | _ <;> rfl

namespace Task

/-- How a runner carries a task out. -/
def action : Task → Run Answer
  | .start config => do
    Runner.start config
    return .done
  | .bind name v => do
    Runner.bind name v
    return .done
  | .attach target onGet onSet onDelete => do
    let _ ← Host.attach target onGet onSet onDelete
    return .done
  | .run tree => return .value (← Runner.run tree)
  | .execute tree => return .report (← Runner.execute tree)

/-- The machine that a task leaves, however it ends. -/
def machine (m : Machine) (task : Task) : Machine := (on task.action m).2

/-- How a task ends on a machine. -/
def ending (m : Machine) (task : Task) : Ending :=
  match on task.action m with
  | (.ok a, _) => .answer a
  | (.error (.fault fault), m') => .fault fault (fault.message m'.heap)
  | (.error (.outside detour), _) => .outside detour

/-- The machine that tasks leave, one after the other. -/
def machines (m : Machine) (tasks : List Task) : Machine := tasks.foldl machine m

/-- How tasks end, one after the other. -/
def endings (m : Machine) : List Task → List Ending
  | [] => []
  | task :: rest => task.ending m :: endings (task.machine m) rest

/-- The values that the host hands over with a task. -/
def values : Task → List Value
  | .start config => config.strict :: config.debug :: config.builtins
  | .bind _ v => [v]
  | .attach target onGet onSet onDelete => [target, onGet, onSet, onDelete]
  | .run tree | .execute tree => [tree]

/-- The objects that the host hands over stand on the heap. -/
def Within (task : Task) (h : Heap) : Prop := ∀ id : ObjectId, .object id ∈ task.values → id < h.size

variable {ρ σ : Renaming}

/-- Renamings that put the objects of a task in the same places rename it alike. -/
theorem rename_congr {task : Task} {h : Heap} (hw : task.Within h)
    (hσ : ∀ id < h.size, σ id = ρ id) : rename σ task = rename ρ task := by
  have hvalue : ∀ v ∈ task.values, rename σ v = rename ρ v := by
    intro v hv
    cases v with
    | object id => rw [rename_object, rename_object, hσ id (hw id hv)]
    | _ => rfl
  cases task with
  | start config =>
    have hbuiltins : config.builtins.map (rename σ) = config.builtins.map (rename ρ) :=
      List.map_congr_left fun v hv => hvalue v (by simp [values, hv])
    show Task.start _ = Task.start _
    rw [show rename σ config = rename ρ config from ?_]
    show Config.mk .. = Config.mk ..
    rw [hvalue config.strict (by simp [values]), hvalue config.debug (by simp [values]), rename_list,
      rename_list, hbuiltins]
  | bind name v => exact congrArg (Task.bind name) (hvalue v (by simp [values]))
  | attach target onGet onSet onDelete =>
    show Task.attach .. = Task.attach ..
    rw [hvalue target (by simp [values]), hvalue onGet (by simp [values]),
      hvalue onSet (by simp [values]), hvalue onDelete (by simp [values])]
  | run tree => exact congrArg Task.run (hvalue tree (by simp [values]))
  | execute tree => exact congrArg Task.execute (hvalue tree (by simp [values]))

/-- A task is carried out on a copy as on the original. -/
theorem follows_action (task : Task) : Follows ρ task.action (rename ρ task).action := by
  cases task with
  | start config => exact (mirror_start config).bind fun _ => .pure Answer.done rfl
  | bind name v => exact (mirror_bind name v).bind fun _ => .pure Answer.done rfl
  | attach target onGet onSet onDelete =>
    exact (follows_attach target onGet onSet onDelete).bind fun _ => .pure Answer.done rfl
  | run tree => exact (follows_runnerRun tree).bind fun v => .pure (Answer.value v) rfl
  | execute tree => exact (follows_execute tree).bind fun r => .pure (Answer.report r) rfl

/-- A task leaves no fewer objects than there were. -/
theorem size_le_machine (m : Machine) (task : Task) : m.heap.size ≤ (task.machine m).heap.size :=
  (follows_action (ρ := ⟨fun id => id, strictMono_id, fun _ => rfl⟩) task).grows m

end Task

/-! ## A machine inside another heap -/

namespace Machine

/-- The second machine is the first one with its objects in other places. -/
structure Copy (ρ : Renaming) (m m' : Machine) : Prop where
  heap : m.heap.Copy ρ m'.heap
  rest : m' = m.moved ρ m'.heap

/-- A copy stays one where its heap is changed in other places than those of its objects, as long as
what is yet to be made goes past the end. -/
theorem Copy.elsewhere {σ : Renaming} {m m' : Machine} (hc : m.Copy σ m') {h : Heap}
    (hnew : ∀ id : Nat, m.heap.size ≤ id → h.size ≤ σ id)
    (hcells : ∀ id < m.heap.size, h.cells[σ id]? = m'.heap.cells[σ id]?)
    (hshared : ∀ v : Value, v.objectId? = none → h.attributes v = m'.heap.attributes v)
    (hparts : h.classParts = m'.heap.classParts) :
    m.Copy σ { m' with heap := h } := by
  refine ⟨⟨fun id => ?_, fun v hv => (hshared v hv).trans (hc.heap.shared v hv), fun part => ?_⟩, ?_⟩
  · by_cases hid : id < m.heap.size
    · have hcell := hc.heap.cell id
      rwa [← hcells id hid] at hcell
    · have hnone : h.cells[σ id]? = none :=
        Array.getElem?_eq_none (hnew id (Nat.le_of_not_lt hid))
      have hnone' : m.heap.cells[id]? = none :=
        Array.getElem?_eq_none (Nat.le_of_not_lt hid)
      rw [hnone, hnone']
      exact .none
  · exact (congrArg (·.find? part) hparts).trans (hc.heap.classPart part)
  · rw [hc.rest]
    rfl

end Machine

/-- Tasks do the same on a copy, which goes on as a copy of what they leave. -/
theorem Task.follows {σ : Renaming} (task : Task) {m m' : Machine} (hc : m.Copy σ m')
    (hfits : σ.Fits m.heap m'.heap (task.machine m).heap.size) :
    Heap.Grown σ m.heap m'.heap (task.machine m).heap ((rename σ task).machine m').heap
      ∧ (task.machine m).Copy σ ((rename σ task).machine m')
      ∧ (rename σ task).ending m' = rename σ (task.ending m) := by
  have hends := (follows_action (ρ := σ) task).ends m m'.heap hc.heap hfits
  rw [← hc.rest] at hends
  unfold Task.machine Task.ending
  revert hends
  generalize on task.action m = end₁, on (rename σ task).action m' = end₂
  rintro (hg | hg)
  · exact ⟨hg, ⟨hg.copy, rfl⟩, rfl⟩
  · rename_i e m₁ h₁
    refine ⟨hg, ⟨hg.copy, rfl⟩, ?_⟩
    cases e with
    | outside detour => rfl
    | fault fault => exact congrArg (Ending.fault (rename σ fault)) (hg.copy.message fault)

namespace Heap

/-- A reserved symbol, as its description and its attributes. -/
def symbol? (h : Heap) (kind : AccessKind) : Option (Option Value × Table String Value) :=
  match h.cells[kind.symbol]? with
  | some ⟨.symbol description, attributes⟩ => some (description, attributes)
  | _ => none

/-- The reserved symbols stand in their places. -/
def HasSymbols (h : Heap) : Prop := ∀ kind, (h.symbol? kind).isSome

/-- The values that runners share are as they were: the reserved symbols, and the attributes of what
is no object, which are those of the undefined value and of the functions that are there from the
start. -/
structure SharesWith (h h' : Heap) : Prop where
  symbol : ∀ kind, h'.symbol? kind = h.symbol? kind
  attributes : ∀ v : Value, v.objectId? = none → h'.attributes v = h.attributes v

variable {σ : Renaming} {h h' h'' : Heap}

/-- Heaps with the same reserved symbols and one table of shared attributes share with each other.
-/
theorem SharesWith.of_eq (hsymbol : ∀ kind ∈ AccessKind.all, h'.symbol? kind = h.symbol? kind)
    (hattributes : h'.sharedAttributes = h.sharedAttributes) : h.SharesWith h' where
  symbol kind := hsymbol kind (by cases kind <;> simp [AccessKind.all])
  attributes _ hv := attributes_of_shared hattributes hv

/-- The cell of a reserved symbol holds the symbol that is found there. -/
theorem HasSymbols.exists_cell (hs : h.HasSymbols) (kind : AccessKind) :
    ∃ description attributes, h.symbol? kind = some (description, attributes)
      ∧ h.cells[kind.symbol]? = some ⟨.symbol description, attributes⟩ := by
  have hsome := hs kind
  unfold symbol? at hsome ⊢
  split at hsome
  · rename_i description attributes hcell
    exact ⟨description, attributes, rfl, hcell⟩
  · cases hsome

/-- The reserved symbols stand on the heap. -/
theorem HasSymbols.lt_size (hs : h.HasSymbols) (kind : AccessKind) : kind.symbol < h.size := by
  obtain ⟨description, attributes, -, hcell⟩ := hs.exists_cell kind
  exact (Array.getElem?_eq_some_iff.mp hcell).1

/-- A reserved symbol has the renamed description and attributes in a copy. -/
theorem Copy.symbol? (hh : h.Copy σ h') (kind : AccessKind) :
    h'.symbol? kind = (h.symbol? kind).map (rename σ) := by
  have hcell := hh.cell kind.symbol
  rw [Renaming.apply_symbol] at hcell
  unfold Heap.symbol?
  revert hcell
  generalize h.cells[kind.symbol]? = c, h'.cells[kind.symbol]? = c'
  rintro (⟨hcell⟩ | _)
  · rename_i c c'
    obtain ⟨o, attributes⟩ := c
    obtain ⟨o', attributes'⟩ := c'
    obtain ⟨ho, rfl⟩ := hcell
    cases ho <;> rfl
  · rfl

/-- The copy of a heap with reserved symbols has them. -/
theorem Copy.hasSymbols (hh : h.Copy σ h') (hs : h.HasSymbols) : h'.HasSymbols := by
  intro kind
  rw [hh.symbol?, Option.isSome_map]
  exact hs kind

namespace SharesWith

/-- Heaps share with each other what one shares with the other. -/
theorem symm (hs : h.SharesWith h') : h'.SharesWith h :=
  ⟨fun kind => (hs.symbol kind).symm, fun v hv => (hs.attributes v hv).symm⟩

/-- What two heaps share with a third they share with each other. -/
theorem trans (hs : h.SharesWith h') (hs' : h'.SharesWith h'') : h.SharesWith h'' :=
  ⟨fun kind => (hs'.symbol kind).trans (hs.symbol kind),
    fun v hv => (hs'.attributes v hv).trans (hs.attributes v hv)⟩

/-- What shares the reserved symbols of a heap has them. -/
theorem hasSymbols (hs : h.SharesWith h') (hsymbols : h.HasSymbols) : h'.HasSymbols := by
  intro kind
  rw [hs.symbol kind]
  exact hsymbols kind

/-- The cell of a symbol is the same as long as the symbol is. -/
theorem cell (hs : h.SharesWith h') (hsymbols : h.HasSymbols) (kind : AccessKind) :
    h'.cells[kind.symbol]? = h.cells[kind.symbol]? := by
  obtain ⟨description, attributes, hsymbol, hcell⟩ := hsymbols.exists_cell kind
  obtain ⟨description', attributes', hsymbol', hcell'⟩ := (hs.hasSymbols hsymbols).exists_cell kind
  have hsame := hs.symbol kind
  rw [hsymbol, hsymbol'] at hsame
  cases hsame
  rw [hcell, hcell']

/-- Copies of heaps that share with each other share with each other. -/
theorem copies {h₁ h₁' : Heap} (hs : h.SharesWith h₁) (hc : h.Copy σ h') (hc₁ : h₁.Copy σ h₁') :
    h'.SharesWith h₁' := by
  refine ⟨fun kind => ?_, fun v hv => ?_⟩
  · rw [hc.symbol?, hc₁.symbol?, hs.symbol kind]
  · rw [hc.shared v hv, hc₁.shared v hv, hs.attributes v hv]

end SharesWith

end Heap

namespace Renaming

/-- The renaming agrees with another one about what is there, and puts what is yet to be made in
places that are free. -/
structure Extends (σ ρ : Renaming) (made taken : Nat) : Prop where
  old : ∀ id < made, σ id = ρ id
  new : ∀ id : Nat, made ≤ id → taken ≤ σ id

/-- A renaming that extends an extension extends the first renaming. -/
theorem Extends.trans {τ σ ρ : Renaming} {made made' taken taken' : Nat}
    (hσ : σ.Extends ρ made taken) (hτ : τ.Extends σ made' taken') (hmade : made ≤ made')
    (htaken : taken ≤ taken') : τ.Extends ρ made taken := by
  refine ⟨fun id hid => ?_, fun id hid => ?_⟩
  · rw [hτ.old id (Nat.lt_of_lt_of_le hid hmade), hσ.old id hid]
  · by_cases hnew : id < made'
    · rw [hτ.old id hnew]
      exact hσ.new id hid
    · exact htaken.trans (hτ.new id (Nat.le_of_not_lt hnew))

/-- A renaming that leaves more places free leaves fewer free as well. -/
theorem Extends.weaken {σ ρ : Renaming} {made taken taken' : Nat} (hσ : σ.Extends ρ made taken')
    (htaken : taken ≤ taken') : σ.Extends ρ made taken :=
  ⟨hσ.old, fun id hid => htaken.trans (hσ.new id hid)⟩

/-- The renaming that puts what is yet to be made in the next free places. -/
def onward (ρ : Renaming) (made taken : Nat) (hinside : ∀ id < made, ρ id < taken)
    (hsymbol : ∀ kind : AccessKind, kind.symbol < made) : Renaming where
  place id := if id < made then ρ id else taken + (id - made)
  strictMono := by
    intro i j hij
    have hij : (i : Nat) < j := hij
    dsimp only
    by_cases hj : j < made
    · rw [if_pos (hij.trans hj), if_pos hj]
      exact ρ.strictMono hij
    · rw [if_neg hj]
      by_cases hi : i < made
      · rw [if_pos hi]
        exact Nat.lt_of_lt_of_le (hinside i hi) (Nat.le_add_right _ _)
      · rw [if_neg hi]
        have hle := Nat.le_of_not_lt hi
        exact Nat.add_lt_add_left (Nat.sub_lt_sub_right hle hij) taken
  place_symbol kind := by rw [if_pos (hsymbol kind), apply_symbol]

section

variable {ρ σ : Renaming} {made taken : Nat} {hinside : ∀ id < made, ρ id < taken}
  {hsymbol : ∀ kind : AccessKind, kind.symbol < made}

/-- What is there keeps its place. -/
theorem onward_old {id : ObjectId} (hid : id < made) :
    ρ.onward made taken hinside hsymbol id = ρ id :=
  if_pos hid

/-- What is yet to be made follows the places that are taken. -/
theorem onward_new {id : Nat} (hid : made ≤ id) :
    ρ.onward made taken hinside hsymbol id = taken + (id - made) :=
  if_neg (Nat.not_lt.mpr hid)

/-- Going on in the next free places extends a renaming. -/
theorem extends_onward : (ρ.onward made taken hinside hsymbol).Extends ρ made taken := by
  refine ⟨fun id hid => onward_old hid, fun id hid => ?_⟩
  rw [onward_new hid]
  exact Nat.le_add_right taken (id - made)

end

end Renaming

namespace Machine

/-- A machine stands inside another heap, as the second machine. Wherever what is yet to be made
will be put there, the second machine is a copy of the first: it holds nothing else of that heap. -/
structure Inside (ρ : Renaming) (m m' : Machine) : Prop where
  symbols : m.heap.HasSymbols
  place_lt : ∀ id < m.heap.size, ρ id < m'.heap.size
  copy : ∀ σ : Renaming, σ.Extends ρ m.heap.size m'.heap.size → m.Copy σ m'

namespace Inside

variable {ρ σ : Renaming} {m m' : Machine}

/-- The renaming under which what is made goes to the end of the heap. -/
def onward (hin : m.Inside ρ m') : Renaming :=
  ρ.onward m.heap.size m'.heap.size hin.place_lt hin.symbols.lt_size

/-- The renaming under which what is made goes to the end of the heap extends the given one. -/
theorem extends_onward (hin : m.Inside ρ m') :
    hin.onward.Extends ρ m.heap.size m'.heap.size :=
  Renaming.extends_onward

/-- It fits heaps that grow by as much as the machine makes. -/
theorem fits_onward (hin : m.Inside ρ m') (n : Nat) : hin.onward.Fits m.heap m'.heap n := by
  intro id hid _
  have hplace : hin.onward id = m'.heap.size + (id - m.heap.size) := Renaming.onward_new hid
  rw [hplace]
  omega

/-- A renaming that goes on where another one ends fits what that one fits. -/
theorem fits_of_extends {h h' : Heap} {n taken : Nat} (hfits : ρ.Fits h h' n)
    (hσ : σ.Extends ρ n taken) : σ.Fits h h' n := by
  intro id hid hlt
  rw [hσ.old id hlt]
  exact hfits id hid hlt

variable {task : Task}

/-- A task of a machine inside another heap is done there under every renaming that goes on from the
one that puts what is made at the end of the heap. -/
theorem follows (hin : m.Inside ρ m') (hwithin : task.Within m.heap) {taken : Nat}
    (htaken : m'.heap.size ≤ taken)
    (hσ : σ.Extends hin.onward (task.machine m).heap.size taken) :
    Heap.Grown σ m.heap m'.heap (task.machine m).heap ((rename ρ task).machine m').heap
      ∧ (task.machine m).Copy σ ((rename ρ task).machine m')
      ∧ (rename ρ task).ending m' = rename σ (task.ending m) := by
  have hgrows := task.size_le_machine m
  have hext := hin.extends_onward.trans hσ hgrows htaken
  rw [← Task.rename_congr hwithin hext.old]
  exact task.follows (hin.copy σ hext) (fits_of_extends (hin.fits_onward _) hσ)

/-- What the machine makes goes to the end of the heap, and nothing else changes that it does not
hold. -/
theorem grown (hin : m.Inside ρ m') (hwithin : task.Within m.heap) :
    Heap.Grown hin.onward m.heap m'.heap (task.machine m).heap
      ((rename ρ task).machine m').heap := by
  have hgrows := task.size_le_machine m
  refine (hin.follows hwithin (Nat.le_refl _) ⟨fun _ _ => rfl, fun id hid => ?_⟩).1
  exact hin.extends_onward.new id (hgrows.trans hid)

/-- A task of the machine inside leaves no fewer objects than there were. -/
theorem size_le (hin : m.Inside ρ m') (hwithin : task.Within m.heap) :
    m'.heap.size ≤ ((rename ρ task).machine m').heap.size := by
  have hgrows := task.size_le_machine m
  have hsize := (hin.grown hwithin).size
  omega

/-- After a task the machine stands inside the heap again, with what it made. -/
theorem after_task (hin : m.Inside ρ m') (hwithin : task.Within m.heap)
    (hshares : m.heap.SharesWith (task.machine m).heap) :
    (task.machine m).Inside hin.onward ((rename ρ task).machine m') := by
  have hgrows := task.size_le_machine m
  have hsize := (hin.grown hwithin).size
  refine ⟨hshares.hasSymbols hin.symbols, fun id hid => ?_, fun σ hσ => ?_⟩
  · by_cases hold : id < m.heap.size
    · rw [hin.extends_onward.old id hold]
      exact Nat.lt_of_lt_of_le (hin.place_lt id hold) (hin.size_le hwithin)
    · have hid : (id : Nat) < (task.machine m).heap.size := hid
      have hold : m.heap.size ≤ id := Nat.le_of_not_lt hold
      have hplace : hin.onward id = m'.heap.size + (id - m.heap.size) := Renaming.onward_new hold
      rw [hplace]
      show m'.heap.size + (id - m.heap.size) < ((rename ρ task).machine m').heap.size
      omega
  · exact (hin.follows hwithin (hin.size_le hwithin) hσ).2.1

/-- What the runners share is as it was, if the machine has left it so. -/
theorem sharesWith (hin : m.Inside ρ m') (hwithin : task.Within m.heap)
    (hshares : m.heap.SharesWith (task.machine m).heap) :
    m'.heap.SharesWith ((rename ρ task).machine m').heap :=
  hshares.copies (hin.copy hin.onward hin.extends_onward).heap (hin.grown hwithin).copy

/-- A machine inside a heap does not notice what is changed there past its objects and what is made.
-/
theorem elsewhere (hin : m.Inside ρ m') {h : Heap} (hsize : m'.heap.size ≤ h.size)
    (hcells : ∀ id < m.heap.size, h.cells[ρ id]? = m'.heap.cells[ρ id]?)
    (hshared : ∀ v : Value, v.objectId? = none → h.attributes v = m'.heap.attributes v)
    (hparts : h.classParts = m'.heap.classParts) : m.Inside ρ { m' with heap := h } := by
  refine ⟨hin.symbols, fun id hid => Nat.lt_of_lt_of_le (hin.place_lt id hid) hsize,
    fun σ hσ => ?_⟩
  have hc := hin.copy σ (hσ.weaken hsize)
  refine hc.elsewhere hσ.new (fun id hid => ?_) hshared hparts
  rw [hσ.old id hid]
  exact hcells id hid

end Inside

/-- What the names of the global environment are bound to. -/
def bindings? (m : Machine) : Option Slots :=
  (Environment.bindings? m.heap (.object m.globals)).map fun found => found.2.1

/-- The global bindings of a copy are the renamed bindings. -/
theorem Copy.bindings? {ρ : Renaming} {m m' : Machine} (hc : m.Copy ρ m') :
    m'.bindings? = m.bindings?.map (rename ρ) := by
  have hglobals : Value.object m'.globals = rename ρ (Value.object m.globals) := by
    rw [hc.rest]
    rfl
  unfold Machine.bindings?
  rw [hglobals, hc.heap.bindings?, Option.map_map, Option.map_map]
  rfl

end Machine

end ChainScript
