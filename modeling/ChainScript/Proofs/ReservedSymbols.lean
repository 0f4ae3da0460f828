import ChainScript.Proofs.HandlerSearch
import ChainScript.Runner

/-!
# Reserved symbols

Nothing that is written, deleted or frozen under other keys than the reserved symbols can give a
record a handler or take one away: `unreserved_changes_keep_handlers`. Each change leaves a heap of
a kin, and so do any number of them.

The search for a handler puts the symbol into words before it knows whether it will need them, so
all this is said of reserved symbols that can be put into words by themselves.
`description_reaches_handlers` shows a record whose handler is lost by a write to another record, in
which a reserved symbol is described.
-/

namespace ChainScript

open Run (on)

/-! ## Actions that leave a machine of a kin -/

namespace Run

variable {α β : Type} {m : Machine}

/-- The action leaves a machine of a kin. -/
def LeavesKin (x : Run α) (m : Machine) : Prop := m.Kin (on x m).2

/-- What goes on from an action that leaves a machine of a kin may start from that machine. -/
theorem LeavesKin.bind {x : Run α} {f : α → Run β} (hx : LeavesKin x m)
    (hf : ∀ a m', on x m = (.ok a, m') → LeavesKin (f a) m') : LeavesKin (x >>= f) m := by
  unfold LeavesKin at hx ⊢
  rw [on_bind]
  rcases hends : on x m with ⟨e | a, m'⟩
  · rw [hends] at hx
    exact hx
  · rw [hends] at hx
    exact hx.trans (hf a m' hends)

/-- A record may be given other slots, and may be frozen. -/
theorem LeavesKin.put {id : ObjectId} {o o' : Object} (ho : m.heap.object? id = some o)
    (hkin : o.Kin o') : LeavesKin (Run.put id o') m :=
  ⟨.put ho hkin, rfl⟩

/-- A note changes the trace alone. -/
theorem exists_trace_on_note {parts : Run (List String)} (hparts : parts.Looks) :
    ∃ trace, (on (note parts) m).2 = { m with trace } := by
  have htracing : ∃ result, on tracing m = (result, m) := by
    rw [tracing, on_bind, on_get]
    dsimp only
    split
    · exact ⟨_, rfl⟩
    · split <;> exact ⟨_, rfl⟩
  obtain ⟨result, hresult⟩ := htracing
  obtain ⟨lines, hlines, -⟩ := hparts
  rw [note, on_bind, hresult]
  cases result with
  | error e => exact ⟨m.trace, rfl⟩
  | ok enabled =>
    cases enabled with
    | false => exact ⟨m.trace, rfl⟩
    | true =>
      dsimp only
      rw [if_pos rfl, on_bind, hlines]
      cases lines m.heap with
      | error e => exact ⟨m.trace, rfl⟩
      | ok parts => exact ⟨_, rfl⟩

/-- So does the note of an ordinary access. -/
theorem exists_trace_on_noteOrdinary (word : String) (key : Value) :
    ∃ trace, (on (Dispatch.noteOrdinary word key) m).2 = { m with trace } := by
  obtain ⟨shown, hshown, -⟩ := Looks.inspect key
  rw [Dispatch.noteOrdinary, on_bind, hshown]
  cases shown m.heap with
  | error e => exact ⟨m.trace, rfl⟩
  | ok shown => exact exists_trace_on_note (.pure _)

/-- What follows the note of an ordinary access goes on from the same heap and registry. -/
theorem LeavesKin.noteOrdinary {word : String} {key : Value} {f : PUnit → Run β}
    (hf : ∀ trace, LeavesKin (f ⟨⟩) { m with trace }) :
    LeavesKin (Dispatch.noteOrdinary word key >>= f) m := by
  obtain ⟨trace, htrace⟩ := exists_trace_on_noteOrdinary (m := m) word key
  have hnote : m.Kin { m with trace } := ⟨.refl m.heap, rfl⟩
  refine LeavesKin.bind (by rw [LeavesKin, htrace]; exact hnote) fun _ m' hends => ?_
  rw [hends] at htrace
  cases htrace
  exact hf trace

end Run

/-! ## Keys that are not reserved -/

/-- Only an object itself has the key of an object. -/
theorem Heap.eq_object_of_keyOf? {h : Heap} {v : Value} {id : ObjectId}
    (hkey : h.keyOf? v = some (.object id)) : v = .object id := by
  cases v with
  | object j =>
    rw [keyOf?, objectKey?] at hkey
    split at hkey
    · cases hkey
    · cases hkey
    · cases hkey
    · cases hkey
    · -- The key of a tuple is made of the keys of its items.
      rename_i items _
      obtain ⟨keys, -, hkeys⟩ := Option.map_eq_some_iff.mp hkey
      cases keys <;> cases hkeys
    · cases hkey
      rfl
  | float x =>
    have hfloat : Key.ofFloat x = .object id := Option.some.inj hkey
    unfold Key.ofFloat at hfloat
    split at hfloat <;> cases hfloat
  | _ => cases hkey

/-- A record stands where it is. -/
theorem Heap.exists_object?_of_isRecord {h : Heap} {id : ObjectId}
    (hrecord : h.isRecord (.object id) = true) :
    ∃ c slots parent frozen, h.object? id = some (.record c slots parent frozen) := by
  unfold isRecord objectOf? at hrecord
  dsimp only at hrecord
  split at hrecord
  · exact ⟨_, _, _, _, ‹_›⟩
  · cases hrecord

/-- A value that names none of the reserved symbols. -/
def Value.Unreserved (key : Value) : Prop := ∀ kind : AccessKind, key ≠ .object kind.symbol

/-- The accessor function that a write to a record would run. -/
def Heap.setter? (h : Heap) (record : ObjectId) (key : Value) : Option Value :=
  match (h.keyOf? key).bind fun k =>
      ((h.owner? k record).bind fun owner => h.ownValue? owner k).bind (Ordinary.accessor? h) with
  | some (_, some .null) => none
  | some (_, setter) => setter
  | none => none

namespace Run

variable {m : Machine}

/-- Writing a slot of an object itself. -/
theorem leavesKin_writeOwn (id : ObjectId) {k : Key}
    (hk : ∀ kind : AccessKind, k ≠ .object kind.symbol) (label value : Value) :
    LeavesKin (Ordinary.writeOwn id k label value) m := by
  rw [Ordinary.writeOwn, LeavesKin, on_bind, on_heap]
  dsimp only
  cases ho : m.heap.object? id with
  | none => exact .refl m
  | some o =>
    cases o with
    | record kind slots parent frozen =>
      dsimp only
      split
      · exact .refl m
      · refine LeavesKin.bind (LeavesKin.put ho (.record kind parent frozen frozen fun access => ?_))
          fun _ m' _ => .refl m'
        rw [Slots.value?_put, if_neg (hk access).symm]
    | _ => exact .refl m

/-- A write to a record that runs no accessor. -/
theorem leavesKin_set (call : Caller) {record : ObjectId}
    (hrecord : m.heap.isRecord (.object record) = true) {key : Value} (hkey : key.Unreserved)
    (hsetter : m.heap.setter? record key = none)
    (value this : Value) : LeavesKin (Ordinary.set call (.object record) key value this) m := by
  obtain ⟨c, slots, parent, frozen, ho⟩ := Heap.exists_object?_of_isRecord hrecord
  unfold Ordinary.set LeavesKin
  rw [on_bind, on_heap]
  dsimp only [Heap.objectOf?]
  rw [ho]
  dsimp only
  rw [on_bind, on_keyOf]
  unfold keyOfResult
  unfold Heap.setter? at hsetter
  cases hk : m.heap.keyOf? key with
  | none => exact .refl m
  | some k =>
    have hfree : ∀ kind : AccessKind, k ≠ .object kind.symbol := by
      rintro kind rfl
      exact hkey kind (Heap.eq_object_of_keyOf? hk)
    rw [hk, Option.bind_some] at hsetter
    dsimp only
    revert hsetter
    generalize ((m.heap.owner? k record).bind fun owner => m.heap.ownValue? owner k).bind
      (Ordinary.accessor? m.heap) = accessor
    intro hsetter
    split
    · exact leavesKin_writeOwn _ hfree key value
    · exact .refl m
    · exact .refl m
    · -- An accessor with a function to run is what the hypothesis rules out.
      rename_i setter hnull
      cases setter with
      | null => exact (hnull rfl).elim
      | _ => cases hsetter

/-- A delete from a record. -/
theorem leavesKin_delete (call : Caller) {record : ObjectId}
    (hrecord : m.heap.isRecord (.object record) = true)
    {key : Value} (hkey : key.Unreserved) : LeavesKin (Ordinary.delete call (.object record) key) m := by
  obtain ⟨c, slots, parent, frozen, ho⟩ := Heap.exists_object?_of_isRecord hrecord
  unfold Ordinary.delete LeavesKin
  rw [on_bind, on_heap]
  dsimp only [Heap.objectOf?]
  rw [ho]
  dsimp only
  rw [on_bind, on_keyOf]
  unfold keyOfResult
  cases hk : m.heap.keyOf? key with
  | none => exact .refl m
  | some k =>
    dsimp only
    split
    · exact .refl m
    · split
      · exact .refl m
      · refine LeavesKin.bind (LeavesKin.put ho (.record c parent frozen frozen fun access => ?_))
          fun _ m' _ => .refl m'
        have hne : ¬(.object access.symbol : Key) = k := by
          rintro rfl
          exact hkey access (Heap.eq_object_of_keyOf? hk)
        rw [Slots.value?, Table.find?_erase, if_neg hne]
        rfl

/-- Freezing a record. -/
theorem leavesKin_freeze (v : Value) : LeavesKin (Library.freeze v) m := by
  unfold Library.freeze LeavesKin
  rw [on_bind, on_heap]
  dsimp only
  split
  · rename_i id kind slots parent frozen ho
    exact LeavesKin.bind (LeavesKin.put ho (.record kind parent frozen true fun _ => rfl))
      fun _ m' _ => .refl m'
  · exact .refl m

end Run

/-! ## Changes of records -/

/-- A change of records under ordinary keys: a write or a delete, made by the host or through a
reference of a program, or a freeze. -/
inductive RecordChange where
  | write (record : ObjectId) (key value this : Value)
  | delete (record : ObjectId) (key : Value)
  | assign (record : ObjectId) (key value this : Value) (strict isSuper : Bool)
  | remove (record : ObjectId) (key this : Value) (strict isSuper : Bool)
  | freeze (record : Value)

namespace RecordChange

/-- The reference of a program to an ordinary slot. -/
def reference (record : ObjectId) (key this : Value) (strict isSuper : Bool) : Reference :=
  ⟨.object record, .ordinary key, this, strict, true, isSuper⟩

/-- Makes the change. A fault that it ends with changes nothing more. -/
def perform (call : Caller) : RecordChange → Run Unit
  | .write record key value this => discard (Ordinary.set call (.object record) key value this)
  | .delete record key => discard (Ordinary.delete call (.object record) key)
  | .assign record key value this strict isSuper =>
    Dispatch.write call (reference record key this strict isSuper) value
  | .remove record key this strict isSuper =>
    discard (Dispatch.delete call (reference record key this strict isSuper))
  | .freeze record => discard (Library.freeze record)

/-- The change is one of a record, under a key that is not reserved, and runs no accessor. -/
def Plain (h : Heap) : RecordChange → Prop
  | .write record key _ _ | .assign record key _ _ _ _ =>
    h.isRecord (.object record) = true ∧ key.Unreserved ∧ h.setter? record key = none
  | .delete record key | .remove record key _ _ _ =>
    h.isRecord (.object record) = true ∧ key.Unreserved
  | .freeze _ => True

/-- The machine that changes leave, made one after the other. -/
def machines (call : Caller) (m : Machine) (changes : List RecordChange) : Machine :=
  changes.foldl (fun m change => (on (change.perform call) m).2) m

/-- Each change is plain when its turn comes. -/
def AllPlain (call : Caller) : Machine → List RecordChange → Prop
  | _, [] => True
  | m, change :: rest => change.Plain m.heap ∧ AllPlain call (on (change.perform call) m).2 rest

/-- A plain change leaves a machine of a kin. -/
theorem kin_perform (call : Caller) {m : Machine} {change : RecordChange}
    (hplain : change.Plain m.heap) : m.Kin (on (change.perform call) m).2 := by
  have hdiscard : ∀ {α : Type} {x : Run α}, x.LeavesKin m → (discard x).LeavesKin m :=
    fun hx => hx.bind fun _ m' _ => .refl m'
  cases change with
  | write record key value this =>
    obtain ⟨hrecord, hkey, hsetter⟩ := hplain
    exact hdiscard (Run.leavesKin_set call hrecord hkey hsetter value this)
  | delete record key => exact hdiscard (Run.leavesKin_delete call hplain.1 hplain.2)
  | assign record key value this strict isSuper =>
    obtain ⟨hrecord, hkey, hsetter⟩ := hplain
    refine Run.LeavesKin.noteOrdinary fun trace => ?_
    have hset : (Ordinary.set call (.object record) key value this).LeavesKin { m with trace } :=
      Run.leavesKin_set (m := { m with trace }) call hrecord hkey hsetter value this
    refine hset.bind fun written m' _ => ?_
    split <;> exact .refl m'
  | remove record key this strict isSuper =>
    refine hdiscard ?_
    cases isSuper with
    | true => exact .refl m
    | false =>
      refine Run.LeavesKin.noteOrdinary fun trace => ?_
      have hdelete : (Ordinary.delete call (.object record) key).LeavesKin { m with trace } :=
        Run.leavesKin_delete (m := { m with trace }) call hplain.1 hplain.2
      refine hdelete.bind fun deleted m' _ => ?_
      split <;> exact .refl m'
  | freeze record => exact hdiscard (Run.leavesKin_freeze record)

/-- Plain changes, one after the other, leave a machine of a kin. -/
theorem kin_machines (call : Caller) {m : Machine} {changes : List RecordChange}
    (hplain : AllPlain call m changes) : m.Kin (machines call m changes) := by
  induction changes generalizing m with
  | nil => exact .refl m
  | cons change rest ih => exact (kin_perform call hplain.1).trans (ih hplain.2)

end RecordChange

/-! ## The main result -/

/-- A record that keeps its handlers or inherits them is served by what the nearest owner of the
reserved symbol holds, and by its class only where the symbol has no owner. Whatever is then
written, deleted or frozen under other keys, on any records, the search for a handler ends alike for
every record. -/
theorem unreserved_changes_keep_handlers (call : Caller) {m : Machine}
    (hshown : m.heap.ReservedShown) {id : ObjectId} {c : RecordClass} {slots : Slots}
    {parent : Option ObjectId} {frozen : Bool}
    (hrecord : m.heap.object? id = some (.record c slots parent frozen)) (kind : AccessKind) :
    on (Resolver.selfAttached (.object id) kind) m
        = Resolver.accept (.object id) kind m (Resolver.recordOffer m.heap c id kind)
      ∧ ∀ changes, RecordChange.AllPlain call m changes →
        Resolver.SameEnd (on (Resolver.handler (.object id) kind) m)
          (on (Resolver.handler (.object id) kind) (RecordChange.machines call m changes)) := by
  constructor
  · rw [Resolver.on_selfAttached, Resolver.offered_record hshown hrecord]
  · intro changes hplain
    exact Resolver.sameEnd_handler (RecordChange.kin_machines call hplain) id kind hshown hrecord

/-- A class of records that serves reads by a method. -/
def servingReads : OwnClass where
  identity := 2
  name := "Serving"
  qualifiedName := "Serving"
  ancestors := []
  offers := ⟨.method, .nothing, .nothing⟩

/-- A machine with a record of that class, and with another one that inherits from it. -/
def withHeir : Machine :=
  let (parent, heap) := Machine.blank.heap.alloc (.record (.own servingReads) .empty none false)
  { Machine.blank with heap := (heap.alloc (.record .plain .empty (some parent) false)).2 }

/-- Slots under the reserved names, which are text, are slots like all others. -/
theorem named_slots_keep_handlers :
    Resolver.SameEnd (on (Resolver.handler (.object 4) .get) withHeir)
      (on (Resolver.handler (.object 4) .get) (RecordChange.machines Runner.call withHeir
        [.write 4 (.str "__vget__") (.builtin .collect) .null,
          .assign 5 (.str "vget") .null (.object 4) true true, .freeze (.object 4),
          .delete 5 (.int 1), .remove 4 (.str "vget") .null false false])) := by
  have hshown : withHeir.heap.ReservedShown := by
    intro kind
    cases kind <;> exact ⟨_, rfl, rfl⟩
  have hfree : ∀ s : String, (Value.str s).Unreserved := fun s kind h => nomatch h
  have hfree' : (Value.int 1).Unreserved := fun kind h => nomatch h
  refine (unreserved_changes_keep_handlers Runner.call hshown rfl .get).2 _ ?_
  exact ⟨⟨rfl, hfree _, by decide +kernel⟩, ⟨by decide +kernel, hfree _, by decide +kernel⟩, .intro,
    ⟨by decide +kernel, hfree'⟩, ⟨by decide +kernel, hfree _⟩, .intro⟩

/-- A machine on which a reserved symbol is described by a record, and another symbol by nothing any
more, with a record that has a handler under the reserved symbol. -/
def withDescription : Machine :=
  let heap := Machine.blank.heap.put AccessKind.get.symbol (.symbol (some (.object 4)))
  let (_, heap) := heap.alloc (.record .plain .empty none false)
  let (_, heap) := heap.alloc (.symbol none)
  let own : Slots := Slots.put .empty (.object AccessKind.get.symbol) (.object AccessKind.get.symbol)
    (.builtin .collect)
  { Machine.blank with heap := (heap.alloc (.record .plain own none false)).2 }

/-- A plain write to the record in which the reserved symbol is described takes the handler of
another record away: the symbol cannot be put into words any more. -/
theorem description_reaches_handlers :
    ((on (Resolver.handler (.object 6) .get) withDescription).1.toOption.map Handler.function
        = some (.builtin .collect))
      ∧ RecordChange.AllPlain Runner.call withDescription [.write 4 (.str "a") (.object 5) .null]
      ∧ Stop.kindOf? (on (Resolver.handler (.object 6) .get) (RecordChange.machines Runner.call
          withDescription [.write 4 (.str "a") (.object 5) .null])).1 = some .attributeError := by
  have hplain : RecordChange.Plain withDescription.heap (.write 4 (.str "a") (.object 5) .null) :=
    ⟨rfl, fun _ h => (nomatch h), by decide +kernel⟩
  exact ⟨by decide +kernel, ⟨hplain, .intro⟩, by decide +kernel⟩

end ChainScript
