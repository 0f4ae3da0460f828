import ChainScript.Proofs.Scope
import ChainScript.Runner

/-!
# Courses of uses of references to bindings

References to bindings are taken and used in any order, several of them to one name perhaps. A
reference says for good which environment bound the name when it was taken, while the bindings go on
changing through other references. A `Ledger` keeps what was taken and what was changed, and says
what every use of the course answers: `binding_uses_follow_ledger`. A read gives the value that the
last change left, or what was bound at first. Where the last change was a delete there is no value,
and the read is a fault of the host's own: `Ledger.answer` has no other read that fails, but that of
a reference which no environment bound.
-/

namespace ChainScript

open Run (on)

/-- A use of the engine. A reference to a binding is taken, or one that was taken before is read,
written or deleted. References have the numbers in which they were taken. -/
inductive BindingUse where
  | take (env : ObjectId) (name : String) (strict : Bool)
  | read (i : Nat)
  | write (i : Nat) (value : Value)
  | delete (i : Nat)

/-- What a use answers. A use of a reference that was never taken is none. -/
inductive BindingAnswer where
  | taken (ref : Reference)
  | value (v : Value)
  | written
  | deleted (gone : Bool)
  | skipped

namespace BindingUse

/-- Carries a use out, given the references that were taken. -/
def perform (call : Caller) (refs : List Reference) : BindingUse → Run BindingAnswer
  | .take env name strict => return .taken (← Dispatch.binding (.object env) (.str name) strict)
  | .read i =>
    match refs[i]? with
    | some ref => return .value (← Dispatch.read call ref)
    | none => return .skipped
  | .write i value =>
    match refs[i]? with
    | some ref => do
      Dispatch.write call ref value
      return .written
    | none => return .skipped
  | .delete i =>
    match refs[i]? with
    | some ref => return .deleted (← Dispatch.delete call ref)
    | none => return .skipped

/-- The references that an answer adds to those that were taken. -/
def added : Except Stop BindingAnswer → List Reference
  | .ok (.taken ref) => [ref]
  | _ => []

/-- The answers of a course. A use that ends with a fault does not end the course. -/
def answers (call : Caller) (refs : List Reference) :
    List BindingUse → Machine → List (Except Stop BindingAnswer)
  | [], _ => []
  | use :: rest, m =>
    let ends := on (use.perform call refs) m
    ends.1 :: answers call (refs ++ added ends.1) rest ends.2

/-- A reference is taken from an environment of some tree. -/
def TakenIn (h : Heap) : BindingUse → Prop
  | .take env _ _ => ∃ root, h.Scoped root env
  | _ => True

end BindingUse

/-! ## Ledgers -/

/-- What a reference holds of a name: the environment that bound it when the reference was taken, if
one did. -/
structure HeldName where
  owner : Option ObjectId
  name : String
  strict : Bool
deriving DecidableEq

/-- The reference. -/
def HeldName.reference (r : HeldName) : Reference := .ofOwner r.owner r.name r.strict

/-- A change of a binding: its new value, or none if it was deleted. -/
structure BindingChange where
  env : ObjectId
  name : String
  value : Option Value
deriving DecidableEq

/-- What was taken in a course, and what was changed, the last change first. -/
structure Ledger where
  held : List HeldName
  changes : List BindingChange

namespace Ledger

/-- The ledger of a course that has not begun. -/
def empty : Ledger := ⟨[], []⟩

/-- The last change of a binding. -/
def last? (l : Ledger) (env : ObjectId) (name : String) : Option BindingChange :=
  l.changes.find? fun c => c.env == env && c.name == name

/-- The value of a binding: the one that was written last and has not been deleted since. What was
never changed has the value that it had at first. -/
def value? (l : Ledger) (first : Heap) (env : ObjectId) (name : String) : Option Value :=
  match l.last? env name with
  | some change => change.value
  | none => first.ownValue? env (.str name)

/-- The nearest environment that binds a name. -/
def owner? (l : Ledger) (first : Heap) (env : ObjectId) (name : String) : Option ObjectId :=
  (first.chain env).find? fun e => (l.value? first e name).isSome

/-- Enters a change. -/
def change (l : Ledger) (env : ObjectId) (name : String) (value : Option Value) : Ledger :=
  { l with changes := ⟨env, name, value⟩ :: l.changes }

/-- What a use answers. -/
def answer (l : Ledger) (first : Heap) : BindingUse → Except Stop BindingAnswer
  | .take env name strict => .ok (.taken (.ofOwner (l.owner? first env name) name strict))
  | .read i =>
    match l.held[i]? with
    | some ⟨some t, name, _⟩ =>
      match l.value? first t name with
      | some v => .ok (.value v)
      | none => .error (.fault (.native .keyError))
    | some ⟨none, name, strict⟩ =>
      .error (.fault (.unbound (.str name) (.ofOwner none name strict)))
    | none => .ok .skipped
  | .write i _ =>
    match l.held[i]? with
    | some ⟨none, name, true⟩ =>
      .error (.fault (.unboundWrite (.str name) (.ofOwner none name true)))
    | some _ => .ok .written
    | none => .ok .skipped
  | .delete i =>
    match l.held[i]? with
    | some _ => .ok (.deleted true)
    | none => .ok .skipped

/-- The ledger after a use. A write through a reference that no environment bound makes a global
binding, and a strict one makes none. -/
def next (l : Ledger) (first : Heap) (globals : ObjectId) : BindingUse → Ledger
  | .take env name strict => { l with held := l.held ++ [⟨l.owner? first env name, name, strict⟩] }
  | .read _ => l
  | .write i value =>
    match l.held[i]? with
    | some ⟨some t, name, _⟩ => l.change t name (some value)
    | some ⟨none, name, false⟩ => l.change globals name (some value)
    | _ => l
  | .delete i =>
    match l.held[i]? with
    | some ⟨some t, name, _⟩ => l.change t name none
    | _ => l

/-- The ledger after a course. -/
def after (l : Ledger) (first : Heap) (globals : ObjectId) (uses : List BindingUse) : Ledger :=
  uses.foldl (fun l use => l.next first globals use) l

/-- The answers of a course. -/
def answers (l : Ledger) (first : Heap) (globals : ObjectId) :
    List BindingUse → List (Except Stop BindingAnswer)
  | [] => []
  | use :: rest => l.answer first use :: answers (l.next first globals use) first globals rest

variable {l : Ledger} {first : Heap} {globals env t : ObjectId} {name : String}

/-- A change is the last of its binding, and no change of another. -/
theorem last?_change (l : Ledger) (t env : ObjectId) (name n : String) (value : Option Value) :
    (l.change t name value).last? env n
      = if env = t ∧ n = name then some ⟨t, name, value⟩ else l.last? env n := by
  show ((⟨t, name, value⟩ : BindingChange) :: l.changes).find? _ = _
  rw [List.find?_cons]
  by_cases hself : env = t ∧ n = name
  · rw [if_pos hself, hself.1, hself.2]
    simp
  · have htest : (t == env && name == n) = false := by
      rw [Bool.and_eq_false_iff, beq_eq_false_iff_ne, beq_eq_false_iff_ne, ← not_and_or]
      exact fun he => hself ⟨he.1.symm, he.2.symm⟩
    rw [if_neg hself]
    dsimp only
    rw [htest]
    rfl

/-- The binding has the value that it was given, and all others have theirs. -/
theorem value?_change (l : Ledger) (first : Heap) (t env : ObjectId) (name n : String)
    (value : Option Value) :
    (l.change t name value).value? first env n
      = if env = t ∧ n = name then value else l.value? first env n := by
  unfold value?
  rw [last?_change]
  by_cases hself : env = t ∧ n = name
  · rw [if_pos hself, if_pos hself]
  · rw [if_neg hself, if_neg hself]

/-- Every use of a course is answered by the ledger of the uses before it. -/
theorem answers_getElem? (l : Ledger) (first : Heap) (globals : ObjectId) (before : List BindingUse)
    (use : BindingUse) (rest : List BindingUse) :
    (l.answers first globals (before ++ use :: rest))[before.length]?
      = some ((l.after first globals before).answer first use) := by
  induction before generalizing l with
  | nil => rfl
  | cons u before ih => exact ih (l.next first globals u)

/-- A ledger answers with a missing key where a reference that leads to a binding without a value is
read, and nowhere else. -/
theorem answer_eq_keyError {use : BindingUse} :
    l.answer first use = .error (.fault (.native .keyError))
      ↔ ∃ i r t, use = .read i ∧ l.held[i]? = some r ∧ r.owner = some t
        ∧ l.value? first t r.name = none := by
  constructor
  · intro hanswer
    cases use with
    | take env name strict => cases hanswer
    | read i =>
      unfold answer at hanswer
      dsimp only at hanswer
      rcases hr : l.held[i]? with _ | ⟨_ | t, name, strict⟩
      · rw [hr] at hanswer
        cases hanswer
      · rw [hr] at hanswer
        cases hanswer
      · rw [hr] at hanswer
        cases hv : l.value? first t name with
        | some v =>
          simp only [hv] at hanswer
          cases hanswer
        | none => exact ⟨i, ⟨some t, name, strict⟩, t, rfl, hr, rfl, hv⟩
    | write i value =>
      unfold answer at hanswer
      dsimp only at hanswer
      revert hanswer
      rcases l.held[i]? with _ | ⟨_ | t, name, _ | _⟩ <;> exact nofun
    | delete i =>
      unfold answer at hanswer
      dsimp only at hanswer
      revert hanswer
      rcases l.held[i]? with _ | ⟨_ | t, name, strict⟩ <;> exact nofun
  · rintro ⟨i, ⟨_, name, strict⟩, t, rfl, hr, rfl, hv⟩
    unfold answer
    dsimp only
    rw [hr]
    simp only [hv]

/-- The references that a use adds are those that its answer gives. -/
theorem map_reference_next (l : Ledger) (first : Heap) (globals : ObjectId) (use : BindingUse) :
    (l.next first globals use).held.map HeldName.reference
      = l.held.map HeldName.reference ++ BindingUse.added (l.answer first use) := by
  have hkept : ∀ {l' : Ledger} {answer}, l'.held = l.held → BindingUse.added answer = [] →
      l'.held.map HeldName.reference = l.held.map HeldName.reference ++ BindingUse.added answer := by
    intro l' answer hheld hadded
    rw [hheld, hadded, List.append_nil]
  cases use with
  | take env name strict =>
    rw [next, List.map_append]
    rfl
  | read i =>
    refine hkept rfl ?_
    unfold answer
    dsimp only
    split
    · split <;> rfl
    · rfl
    · rfl
  | write i value =>
    unfold next answer
    dsimp only
    rcases l.held[i]? with _ | ⟨_ | t, name, _ | _⟩ <;> exact hkept rfl rfl
  | delete i =>
    unfold next answer
    dsimp only
    rcases l.held[i]? with _ | ⟨_ | t, name, strict⟩ <;> exact hkept rfl rfl

/-! ## A ledger agrees with the machine -/

/-- The machine is as the ledger says, in a course that began on another. -/
structure Agrees (start : Machine) (l : Ledger) (m : Machine) : Prop where
  readable : m.traces?.isSome = true
  globals : m.globals = start.globals
  chain : ∀ env, m.heap.chain env = start.heap.chain env
  value : ∀ env name, m.heap.ownValue? env (.str name) = l.value? start.heap env name
  /-- Environments stay environments. -/
  environment : ∀ id bindings parent, start.heap.object? id = some (.environment bindings parent) →
    ∃ bindings' parent', m.heap.object? id = some (.environment bindings' parent')
  /-- A reference that is held leads to an environment. -/
  leads : ∀ r ∈ l.held, ∀ t, r.owner = some t →
    ∃ bindings parent, m.heap.object? t = some (.environment bindings parent)
  /-- What a reference that is held leads to has a value, unless its last change was a delete. -/
  lost : ∀ r ∈ l.held, ∀ t, r.owner = some t → l.value? start.heap t r.name = none →
    ∃ change, l.last? t r.name = some change ∧ change.value = none

/-- A course begins with an empty ledger. -/
theorem Agrees.start {m : Machine} (hreadable : m.traces?.isSome = true) : Agrees m empty m where
  readable := hreadable
  globals := rfl
  chain _ := rfl
  value _ _ := rfl
  environment _ bindings parent ho := ⟨bindings, parent, ho⟩
  leads := nofun
  lost := nofun

namespace Agrees

variable {start m : Machine}

/-- Notes of accesses do not matter. -/
theorem noted (ha : Agrees start l m) (parts : List String) : Agrees start l (m.noted parts) := by
  obtain ⟨trace, hnoted⟩ := m.exists_trace_noted parts
  rw [hnoted]
  exact ⟨ha.readable, ha.globals, ha.chain, ha.value, ha.environment, ha.leads, ha.lost⟩

/-- A name is found where the ledger says. -/
theorem owner?_eq (ha : Agrees start l m) (env : ObjectId) (name : String) :
    m.heap.owner? (.str name) env = l.owner? start.heap env name := by
  rw [Heap.owner?_eq_find?_chain, ha.chain, owner?]
  refine congrArg₂ _ (funext fun e => ?_) rfl
  rw [Heap.owns, ha.value]

/-- A change of a binding is entered. -/
theorem rebind (ha : Agrees start l m) {bindings : Slots} {parent : Option ObjectId}
    (ho : m.heap.object? t = some (.environment bindings parent)) (name : String)
    (value : Option Value) :
    Agrees start (l.change t name value) { m with heap := m.heap.rebind t name value } := by
  have hd := Heap.differsUnder_rebind ho name value
  have hkept : ∀ {id bindings' parent'}, m.heap.object? id = some (.environment bindings' parent') →
      ∃ bindings'' parent'', (m.heap.rebind t name value).object? id
        = some (.environment bindings'' parent'') := by
    intro id bindings' parent' hid
    by_cases hself : id = t
    · obtain ⟨bindings'', ho'', -⟩ := Heap.object?_rebind ho name value
      exact ⟨bindings'', parent, hself ▸ ho''⟩
    · exact ⟨bindings', parent', by rw [Heap.object?_rebind_of_ne hself, hid]⟩
  refine ⟨ha.readable, ha.globals, fun env => (hd.chain_eq env).trans (ha.chain env),
    fun env n => ?_, fun id bindings' parent' hid => ?_, fun r hr t' ht' => ?_,
    fun r hr t' ht' hnone => ?_⟩
  · rw [value?_change]
    split
    · rename_i hself
      rw [hself.1, hself.2]
      exact Heap.ownValue?_rebind_self ho name value
    · rename_i helse
      exact (hd.held env _ fun he => helse ⟨he.1, Key.str.inj he.2⟩).trans (ha.value env n)
  · obtain ⟨bindings'', parent'', hid'⟩ := ha.environment id bindings' parent' hid
    exact hkept hid'
  · obtain ⟨bindings', parent', hid⟩ := ha.leads r hr t' ht'
    exact hkept hid
  · rw [value?_change] at hnone
    rw [last?_change]
    split
    · rename_i hself
      rw [if_pos hself] at hnone
      exact ⟨_, rfl, hnone⟩
    · rename_i helse
      rw [if_neg helse] at hnone
      exact ha.lost r hr t' ht' hnone

/-- A change is noted first. -/
theorem changed (ha : Agrees start l m) {bindings : Slots} {parent : Option ObjectId}
    (ho : m.heap.object? t = some (.environment bindings parent)) (parts : List String)
    (name : String) (value : Option Value) :
    Agrees start (l.change t name value)
      { m.noted parts with heap := m.heap.rebind t name value } := by
  have hchanged := (ha.noted parts).rebind (by rw [Machine.noted_heap]; exact ho) name value
  rw [Machine.noted_heap] at hchanged
  exact hchanged

/-- A reference that is taken leads to an environment, which binds the name. -/
theorem take (ha : Agrees start l m) {root : ObjectId} (henv : start.heap.Scoped root env)
    (name : String) (strict : Bool) :
    Agrees start { l with held := l.held ++ [⟨l.owner? start.heap env name, name, strict⟩] } m := by
  refine ⟨ha.readable, ha.globals, ha.chain, ha.value, ha.environment, fun r hr t' ht' => ?_,
    fun r hr t' ht' hnone => ?_⟩
  · rcases List.mem_append.mp hr with hr | hr
    · exact ha.leads r hr t' ht'
    · obtain rfl := List.mem_singleton.mp hr
      obtain ⟨bindings, parent, ho⟩ :=
        (henv.of_mem_chain (List.mem_of_find?_eq_some ht')).exists_environment
      exact ha.environment _ _ _ ho
  · rcases List.mem_append.mp hr with hr | hr
    · exact ha.lost r hr t' ht' hnone
    · obtain rfl := List.mem_singleton.mp hr
      have hbinds := List.find?_some (p := fun e => (l.value? start.heap e name).isSome) ht'
      have hunbound : l.value? start.heap t' name = none := hnone
      rw [hunbound] at hbinds
      cases hbinds

/-- On the machine, the use answers what the ledger says, and is entered in it. -/
def Follows (start : Machine) (l : Ledger) (call : Caller) (use : BindingUse) (m : Machine) : Prop :=
  (on (use.perform call (l.held.map HeldName.reference)) m).1 = l.answer start.heap use
    ∧ Agrees start (l.next start.heap start.globals use)
      (on (use.perform call (l.held.map HeldName.reference)) m).2

section

variable (ha : Agrees start l m) (call : Caller)
include ha

/-- Taking a reference follows the ledger. -/
theorem follows_take {root env : ObjectId} (henv : start.heap.Scoped root env) (name : String)
    (strict : Bool) : Follows start l call (.take env name strict) m := by
  obtain ⟨bindings, parent, ho⟩ := henv.exists_environment
  obtain ⟨bindings', parent', ho'⟩ := ha.environment env bindings parent ho
  unfold Follows BindingUse.perform answer next
  dsimp only
  rw [Run.on_bind_ok (Dispatch.on_binding ho' name strict), ha.owner?_eq]
  exact ⟨rfl, ha.take henv name strict⟩

/-- Reading through a reference that was taken follows it. -/
theorem follows_read (i : Nat) : Follows start l call (.read i) m := by
  unfold Follows BindingUse.perform answer next
  dsimp only
  rw [List.getElem?_map]
  rcases hr : l.held[i]? with _ | ⟨_ | t, name, strict⟩
  · exact ⟨rfl, ha⟩
  · exact ⟨rfl, ha⟩
  · obtain ⟨bindings, parent, ho⟩ := ha.leads _ (List.mem_of_getElem? hr) t rfl
    have hread := Dispatch.on_read_bound call name strict ho
    rw [if_pos ha.readable, Environment.lookupEnd, ha.value] at hread
    dsimp only [Option.map_some, HeldName.reference]
    rw [Run.on_bind, hread]
    cases l.value? start.heap t name with
    | none => exact ⟨rfl, ha.noted _⟩
    | some v => exact ⟨rfl, ha.noted _⟩

/-- A write through a reference that no environment bound is a global one, or is refused. -/
theorem follows_write (hglobals : ∃ root, start.heap.Scoped root start.globals) (i : Nat)
    (value : Value) : Follows start l call (.write i value) m := by
  unfold Follows BindingUse.perform answer next
  dsimp only
  rw [List.getElem?_map]
  rcases hr : l.held[i]? with _ | ⟨_ | t, name, strict⟩
  · exact ⟨rfl, ha⟩
  · cases strict with
    | true => exact ⟨rfl, ha⟩
    | false =>
      obtain ⟨root, hroot⟩ := hglobals
      obtain ⟨bindings, parent, ho⟩ := hroot.exists_environment
      obtain ⟨bindings', parent', ho'⟩ := ha.environment _ bindings parent ho
      rw [← ha.globals] at ho'
      have hwrite := Dispatch.on_write_unbound call name ho' value
      rw [if_pos ha.readable, ha.globals] at hwrite
      dsimp only [Option.map_some, HeldName.reference]
      rw [Run.on_bind_ok hwrite]
      exact ⟨rfl, ha.changed (ha.globals ▸ ho') _ name (some value)⟩
  · obtain ⟨bindings, parent, ho⟩ := ha.leads _ (List.mem_of_getElem? hr) t rfl
    have hwrite := Dispatch.on_write_bound call name strict ho value
    rw [if_pos ha.readable] at hwrite
    dsimp only [Option.map_some, HeldName.reference]
    rw [Run.on_bind_ok hwrite]
    exact ⟨rfl, ha.changed ho _ name (some value)⟩

/-- So does deleting through one. -/
theorem follows_delete (i : Nat) : Follows start l call (.delete i) m := by
  unfold Follows BindingUse.perform answer next
  dsimp only
  rw [List.getElem?_map]
  rcases hr : l.held[i]? with _ | ⟨_ | t, name, strict⟩
  · exact ⟨rfl, ha⟩
  · exact ⟨rfl, ha⟩
  · obtain ⟨bindings, parent, ho⟩ := ha.leads _ (List.mem_of_getElem? hr) t rfl
    have hdelete := Dispatch.on_delete_bound call name strict ho
    rw [if_pos ha.readable] at hdelete
    dsimp only [Option.map_some, HeldName.reference]
    rw [Run.on_bind_ok hdelete]
    exact ⟨rfl, ha.changed ho _ name none⟩

/-- So the ledger keeps agreeing, whatever the use. -/
theorem follows (hglobals : ∃ root, start.heap.Scoped root start.globals) {use : BindingUse}
    (huse : use.TakenIn start.heap) : Follows start l call use m := by
  cases use with
  | take env name strict =>
    obtain ⟨root, henv⟩ := huse
    exact ha.follows_take call henv name strict
  | read i => exact ha.follows_read call i
  | write i value => exact ha.follows_write call hglobals i value
  | delete i => exact ha.follows_delete call i

end

/-- So do the uses of a course one after another. -/
theorem answers_eq (ha : Agrees start l m) (hglobals : ∃ root, start.heap.Scoped root start.globals)
    (call : Caller) {uses : List BindingUse} (huses : ∀ use ∈ uses, use.TakenIn start.heap) :
    BindingUse.answers call (l.held.map HeldName.reference) uses m
      = l.answers start.heap start.globals uses := by
  induction uses generalizing l m with
  | nil => rfl
  | cons use rest ih =>
    obtain ⟨hanswer, hnext⟩ := ha.follows call hglobals (huses use List.mem_cons_self)
    have hrest := ih hnext fun use huse => huses use (List.mem_cons_of_mem _ huse)
    rw [map_reference_next] at hrest
    rw [BindingUse.answers, answers, hanswer, hrest]

/-- The ledger of a course agrees with some machine. -/
theorem exists_after (ha : Agrees start l m) (hglobals : ∃ root, start.heap.Scoped root start.globals)
    {uses : List BindingUse} (huses : ∀ use ∈ uses, use.TakenIn start.heap) :
    ∃ m', Agrees start (l.after start.heap start.globals uses) m' := by
  induction uses generalizing l m with
  | nil => exact ⟨m, ha⟩
  | cons use rest ih =>
    obtain ⟨-, hnext⟩ := ha.follows (fun _ _ => Run.outside) hglobals (huses use List.mem_cons_self)
    exact ih hnext fun use huse => huses use (List.mem_cons_of_mem _ huse)

end Agrees

end Ledger

/-! ## Courses -/

/-- In every course of uses of references to bindings, which are taken at any time and used in any
order, each use answers as the ledger of the uses before it says: a read gives the value that was
written last to the binding and not deleted since, or what was bound at first, and a reference that
no environment bound when it was taken cannot be read. A use ends with a fault of the host's own
only if it reads a binding whose last change was a delete, and then it always does. -/
theorem binding_uses_follow_ledger {m : Machine} (hreadable : m.traces?.isSome = true)
    (hglobals : ∃ root, m.heap.Scoped root m.globals) {uses : List BindingUse}
    (huses : ∀ use ∈ uses, use.TakenIn m.heap) (call : Caller) :
    ∀ before use after, uses = before ++ use :: after →
      let l := Ledger.empty.after m.heap m.globals before
      (BindingUse.answers call [] uses m)[before.length]? = some (l.answer m.heap use)
        ∧ (l.answer m.heap use = .error (.fault (.native .keyError))
          ↔ ∃ i r t change, use = .read i ∧ l.held[i]? = some r ∧ r.owner = some t
            ∧ l.last? t r.name = some change ∧ change.value = none) := by
  rintro before use after rfl l
  have hanswers := (Ledger.Agrees.start hreadable).answers_eq hglobals call huses
  have hbefore : ∀ use ∈ before, use.TakenIn m.heap :=
    fun use huse => huses use (List.mem_append_left _ huse)
  obtain ⟨m', ha⟩ := (Ledger.Agrees.start hreadable).exists_after hglobals hbefore
  constructor
  · show (BindingUse.answers call (Ledger.empty.held.map HeldName.reference) _ m)[_]? = _
    rw [hanswers, Ledger.answers_getElem?]
  · rw [Ledger.answer_eq_keyError]
    constructor
    · rintro ⟨i, r, t, huse, hr, ht, hnone⟩
      obtain ⟨change, hlast, hdeleted⟩ := ha.lost r (List.mem_of_getElem? hr) t ht hnone
      exact ⟨i, r, t, change, huse, hr, ht, hlast, hdeleted⟩
    · rintro ⟨i, r, t, change, huse, hr, ht, hlast, hdeleted⟩
      refine ⟨i, r, t, huse, hr, ht, ?_⟩
      rw [Ledger.value?, hlast]
      exact hdeleted

namespace BindingUse

/-- The value that a use answers with, if it does. -/
def valueOf : Except Stop BindingAnswer → Option Value
  | .ok (.value v) => some v
  | _ => none

/-- A global binding is made, and two references to it are taken. The one is written and the other
read. Then the other is deleted and the one read. -/
def sharedName : List BindingUse :=
  [.take 3 "x" false, .write 0 (.int 1), .take 3 "x" false, .take 3 "x" true, .write 1 (.int 2),
    .read 2, .delete 2, .read 1]

/-- The references of the course are taken in the global environment. -/
theorem sharedName_takenIn : ∀ use ∈ sharedName, use.TakenIn Machine.blank.heap := by
  have hglobals : Machine.blank.heap.Scoped 3 3 := .outermost rfl
  intro use huse
  simp only [sharedName, List.mem_cons, List.not_mem_nil, or_false] at huse
  rcases huse with rfl | rfl | rfl | rfl | rfl | rfl | rfl | rfl <;>
    first | exact ⟨3, hglobals⟩ | trivial

/-- What is written through one reference to a name is read through another. -/
theorem shared_name_is_read :
    Machine.blank.traces?.isSome = true
      ∧ (∃ root, Machine.blank.heap.Scoped root Machine.blank.globals)
      ∧ (∀ use ∈ sharedName, use.TakenIn Machine.blank.heap)
      ∧ (answers Runner.call [] sharedName Machine.blank)[5]?.map valueOf = some (some (.int 2)) := by
  have hglobals : ∃ root, Machine.blank.heap.Scoped root Machine.blank.globals :=
    ⟨3, .outermost rfl⟩
  refine ⟨rfl, hglobals, sharedName_takenIn, ?_⟩
  obtain ⟨hanswer, -⟩ := binding_uses_follow_ledger rfl hglobals sharedName_takenIn Runner.call
    (sharedName.take 5) (.read 2) (sharedName.drop 6) rfl
  rw [show (sharedName.take 5).length = 5 from rfl] at hanswer
  rw [hanswer]
  decide +kernel

/-- What was deleted through one reference is no key when another is read, though it is a reference
to a binding that was taken and resolved. -/
theorem deleted_name_is_no_key :
    (answers Runner.call [] sharedName Machine.blank)[7]?
      = some (.error (.fault (.native .keyError))) := by
  have hanswers := (Ledger.Agrees.start (m := Machine.blank) rfl).answers_eq ⟨3, .outermost rfl⟩
    Runner.call sharedName_takenIn
  have hread := Ledger.answers_getElem? .empty Machine.blank.heap Machine.blank.globals
    (sharedName.take 7) (.read 1) []
  refine (congrArg (·[7]?) hanswers).trans (hread.trans (congrArg some ?_))
  exact Ledger.answer_eq_keyError.mpr
    ⟨1, ⟨some 3, "x", false⟩, 3, rfl, by decide +kernel, rfl, by decide +kernel⟩

end BindingUse

end ChainScript
