import ChainScript.Proofs.Alike
import ChainScript.Proofs.HostField
import ChainScript.Proofs.OrdinaryAccess
import ChainScript.Runner

/-!
# Refused accesses leave no trace

An ordinary write or delete that answers false has changed nothing at all, and has run no getter and
no setter: every caller would have met the same answer. So what follows a refusal starts from the
machine as it was before the attempt. A strict reference turns the refusal into a fault of its own
kind, which can always be told, because the key was put into words on the same heap before the
attempt. A sloppy one passes over it.

Functions of the host behind an attribute are the exception. One that looks after a set may change
what it likes and then refuse. And the kind of the fault does not say who raised it: a setter is a
function like any other, and a fault that it ends with passes through the write, whether the
reference is strict or not. `functions_show_through_refusals` has an example of each.
-/

namespace ChainScript

open Run (on)

namespace Attribute

variable {m m' : Machine} {v new : Value} {name : String}

/-- An attribute that is not taken leaves everything as it was. -/
theorem set_refused (hrefused : on (set v name new) m = (.ok false, m')) : m' = m := by
  rw [on_set] at hrefused
  split at hrefused
  · cases hrefused
  · cases hrefused
  · split at hrefused
    · cases hrefused
    · split at hrefused
      · cases hrefused
      · cases hrefused
        rfl
  · cases hrefused
    rfl

/-- Removing an attribute comes to an answer, and one that is not given up leaves everything as it
was. -/
theorem delete_yields (v : Value) (name : String) (m : Machine) :
    Run.Yields (delete v name) m fun gone m' => gone = false → m' = m := by
  unfold Run.Yields
  rw [on_delete]
  split
  · exact ⟨true, _, rfl, Bool.noConfusion⟩
  · split
    · split
      · exact ⟨true, _, rfl, Bool.noConfusion⟩
      · exact ⟨false, m, rfl, fun _ => rfl⟩
    · exact ⟨false, m, rfl, fun _ => rfl⟩

end Attribute

namespace Ordinary

variable {m m' : Machine} {call : Caller} {base key value this : Value} {k : Key}

/-- A record that does not take a slot stays as it was. -/
theorem writeOwn_refused {id : ObjectId} {label : Value}
    (hrefused : on (writeOwn id k label value) m = (.ok false, m')) : m' = m := by
  rw [on_writeOwn] at hrefused
  split at hrefused
  · cases hrefused
  · cases hrefused
    rfl

/-- A write that is refused has changed nothing, and has called nothing but the host to look after a
field: every other caller that does so meets the same refusal. -/
theorem set_refused (hcall : call.AnswersFields) (hplain : Protocol.computes m.heap base key = false)
    (hk : m.heap.keyOf? key = some k)
    (hrefused : on (set call base key value this) m = (.ok false, m')) :
    m' = m ∧ ∀ other : Caller, other.ServesFields →
      on (set other base key value this) m = (.ok false, m) := by
  cases m.heap.base base with
  | @record id kind slots parent frozen hbase ho =>
    subst hbase
    simp only [on_set_record _ ho hk] at hrefused ⊢
    generalize consulted? m.heap id k = accessor at hrefused ⊢
    rcases accessor with _ | ⟨getter, _ | setter⟩
    · obtain rfl := writeOwn_refused hrefused
      exact ⟨rfl, fun _ _ => hrefused⟩
    · cases hrefused
    · -- A setter that comes to a value makes the write succeed.
      have hran : ∀ f, on (do
          let _ ← call f [receiverOf (.object id) this, value]
          return true) m ≠ (.ok false, m') := by
        intro f hf
        rw [Run.on_bind] at hf
        split at hf <;> cases hf
      cases setter with
      | null =>
        cases hrefused
        exact ⟨rfl, fun _ _ => rfl⟩
      | _ => exact (hran _ hrefused).elim
  | dict hbase ho =>
    subst hbase
    rw [on_set_dict call ho hk] at hrefused
    cases hrefused
  | proxy hbase ho =>
    subst hbase
    rw [on_set_proxy call ho] at hrefused
    cases hrefused
    exact ⟨rfl, fun other _ => on_set_proxy other ho key value this⟩
  | list hbase ho =>
    subst hbase
    simp only [on_set_list _ ho] at hrefused ⊢
    split at hrefused
    · split at hrefused
      · cases hrefused
      · cases hrefused
        exact ⟨rfl, fun _ _ => rfl⟩
    · cases hrefused
      exact ⟨rfl, fun _ _ => rfl⟩
  | other hentries hlist =>
    simp only [on_set_attribute _ hentries hlist] at hrefused ⊢
    split at hrefused
    · split at hrefused
      · rename_i hforeign
        obtain ⟨rfl, hother⟩ := hcall.refused (nofun : AccessKind.set ≠ .get) hplain hrefused
        exact ⟨rfl, fun other hserves => by rw [if_pos hforeign, hother other hserves]⟩
      · rename_i hown
        obtain rfl := Attribute.set_refused hrefused
        exact ⟨rfl, fun _ _ => by rw [if_neg hown, hrefused]⟩
    · cases hrefused
      exact ⟨rfl, fun _ _ => rfl⟩

/-- The delete comes to an answer, and if that is a refusal it has changed nothing, and has called
nothing but the host to look after a field. Only where it looks after one may the host end without
an answer. -/
def DeleteSettles (call : Caller) (base key : Value) (m : Machine) : Prop :=
  (Run.Yields (delete call base key) m fun gone m' => gone = false →
      m' = m ∧ ∀ other : Caller, other.ServesFields → on (delete other base key) m = (.ok false, m))
    ∨ (∃ name, key = .str name ∧ m.heap.isForeign .delete base name = true)
      ∧ ∃ e m', on (delete call base key) m = (.error e, m') ∧ e.IsForeign

/-- A delete of an attribute that the host looks after settles. -/
theorem delete_settles_of_foreign {name : String} (hcall : call.AnswersFields)
    (hplain : Protocol.computes m.heap base (.str name) = false)
    (hforeign : m.heap.isForeign .delete base name = true)
    (hdelete : ∀ other : Caller, on (delete other base (.str name)) m
      = on (do return (← other (.builtin (.attribute name .delete)) [base]) == Value.bool true) m) :
    DeleteSettles call base (.str name) m := by
  unfold DeleteSettles Run.Yields
  simp only [hdelete]
  rcases hends : on (do
      return (← call (.builtin (.attribute name .delete)) [base]) == Value.bool true) m
    with ⟨e | gone, m'⟩
  · refine .inr ⟨⟨name, rfl, hforeign⟩, e, m', rfl, ?_⟩
    rw [Run.on_bind] at hends
    rcases hcalled : on (call (.builtin (.attribute name .delete)) [base]) m
      with ⟨e' | answer, m₁⟩
    · rw [hcalled] at hends
      cases hends
      exact hcall.fails hplain hcalled
    · rw [hcalled] at hends
      cases hends
  · refine .inl ⟨gone, m', rfl, ?_⟩
    rintro rfl
    exact hcall.refused (nofun : AccessKind.delete ≠ .get) hplain hends

/-- A delete from what is neither a record nor a mapping settles. -/
theorem delete_settles_of_unkeyed (hcall : call.AnswersFields)
    (hplain : Protocol.computes m.heap base key = false) (hentries : m.heap.entries? base = none) :
    DeleteSettles call base key m := by
  by_cases hforeign : ∃ name, key = .str name ∧ m.heap.isForeign .delete base name = true
  · obtain ⟨name, rfl, hforeign⟩ := hforeign
    refine delete_settles_of_foreign hcall hplain hforeign fun other => ?_
    rw [on_delete_of_entries?_none other hentries]
    exact if_pos hforeign
  · refine .inl ?_
    unfold Run.Yields
    simp only [on_delete_of_entries?_none _ hentries]
    split
    · exact ⟨_, m, rfl, fun hgone => ⟨rfl, fun _ _ => by rw [hgone]⟩⟩
    · rename_i name
      simp only [if_neg fun hname => hforeign ⟨name, rfl, hname⟩]
      split
      · obtain ⟨gone, m', hdelete, hsame⟩ := Attribute.delete_yields base name m
        refine ⟨gone, m', hdelete, ?_⟩
        rintro rfl
        obtain rfl := hsame rfl
        exact ⟨rfl, fun _ _ => hdelete⟩
      · exact ⟨true, m, rfl, Bool.noConfusion⟩
    · exact ⟨true, m, rfl, Bool.noConfusion⟩

/-- A delete under a key that names a slot settles. -/
theorem delete_settles (hcall : call.AnswersFields)
    (hplain : Protocol.computes m.heap base key = false) (hk : m.heap.keyOf? key = some k) :
    DeleteSettles call base key m := by
  cases m.heap.base base with
  | record hbase ho =>
    subst hbase
    refine .inl ?_
    unfold Run.Yields
    simp only [on_delete_record _ ho hk]
    split
    · split
      · exact ⟨false, m, rfl, fun _ => ⟨rfl, fun _ _ => rfl⟩⟩
      · exact ⟨true, _, rfl, Bool.noConfusion⟩
    · exact ⟨true, m, rfl, Bool.noConfusion⟩
  | dict hbase ho =>
    subst hbase
    exact .inl ⟨true, _, on_delete_dict call ho hk, Bool.noConfusion⟩
  | proxy hbase ho =>
    subst hbase
    refine .inl ⟨_, m, on_delete_proxy call ho hk, fun hgone => ⟨rfl, fun other _ => ?_⟩⟩
    rw [on_delete_proxy other ho hk, hgone]
  | list hbase ho =>
    subst hbase
    exact delete_settles_of_unkeyed hcall hplain (m.heap.entries?_list ho)
  | other hentries hlist => exact delete_settles_of_unkeyed hcall hplain hentries

end Ordinary

/-! ## References -/

namespace Dispatch

variable {m m' : Machine} {call : Caller} {ref : Reference} {key value : Value}

/-- How a write through a reference to an ordinary slot ends. -/
structure WriteEnds (call : Caller) (ref : Reference) (key value : Value) (m : Machine) : Prop where
  /-- It ends with a write failure exactly where the slot is reached and either the reference is
  strict and the write was refused, or a setter raised such a failure, which passes through. -/
  fails_iff : Stop.kindOf? (on (write call ref value) m).1 = some .strictWriteFailure ↔
    ∃ m', Reaches "write" key m m' ∧
      (ref.strict = true ∧ (on (Ordinary.set call ref.base key value ref.thisValue) m').1 = .ok false
        ∨ Stop.kindOf? (on (Ordinary.set call ref.base key value ref.thisValue) m').1
          = some .strictWriteFailure)
  /-- Where the write is refused, a strict reference raises the refusal and a sloppy one is silent.
  Either leaves the machine as it was before the attempt, and that is as it was but for the trace.
  -/
  refused : ∀ m', Reaches "write" key m m' →
    (on (Ordinary.set call ref.base key value ref.thisValue) m').1 = .ok false →
      on (write call ref value) m
          = (if ref.strict then .error (.fault (.writeRefused key ref)) else .ok (), m')
        ∧ ∃ trace, m' = { m with trace }

/-- How a delete through a reference to an ordinary slot ends. -/
structure DeleteEnds (call : Caller) (ref : Reference) (key : Value) (m : Machine) : Prop where
  /-- It ends with a delete failure exactly where the slot is reached, the reference is strict and
  the delete was refused. -/
  fails_iff : Stop.kindOf? (on (delete call ref) m).1 = some .strictDeleteFailure ↔
    ∃ m', Reaches "delete" key m m' ∧ ref.strict = true
      ∧ (on (Ordinary.delete call ref.base key) m').1 = .ok false
  /-- Where the slot is reached, the delete is answered, and unless the answer is the refusal of a
  strict reference it is the answer of the reference, with the machine that the delete left. Only
  where the host looks after the attribute may it end without an answer, and then the reference ends
  so. -/
  answers : ∀ m', Reaches "delete" key m m' →
    (∃ gone m₁, on (Ordinary.delete call ref.base key) m' = (.ok gone, m₁)
        ∧ (¬(ref.strict = true ∧ gone = false) → on (delete call ref) m = (.ok gone, m₁)))
      ∨ (∃ name, key = .str name ∧ m.heap.isForeign .delete ref.base name = true)
        ∧ ∃ e m₁, on (Ordinary.delete call ref.base key) m' = (.error e, m₁)
          ∧ on (delete call ref) m = (.error e, m₁)
  /-- Where the delete is refused, a strict reference raises the refusal and a sloppy one answers
  false. Either leaves the machine as it was before the attempt, and that is as it was but for the
  trace. -/
  refused : ∀ m', Reaches "delete" key m m' →
    (on (Ordinary.delete call ref.base key) m').1 = .ok false →
      on (delete call ref) m
          = (if ref.strict then .error (.fault (.deleteRefused key ref)) else .ok false, m')
        ∧ ∃ trace, m' = { m with trace }

/-- A write that is reached goes on with the attempt. -/
theorem Reaches.on_write (hreach : Reaches "write" key m m') (hname : ref.name = .ordinary key)
    (call : Caller) (value : Value) :
    on (write call ref value) m =
      match on (Ordinary.set call ref.base key value ref.thisValue) m' with
      | (.ok true, m₁) => (.ok (), m₁)
      | (.ok false, m₁) =>
        (if ref.strict then .error (.fault (Fault.arising m₁.heap (.writeRefused key ref))) else .ok (),
          m₁)
      | (.error e, m₁) => (.error e, m₁) := by
  unfold write
  rw [hname]
  dsimp only
  rw [Run.on_bind_ok hreach, Run.on_bind]
  rcases on (Ordinary.set call ref.base key value ref.thisValue) m' with ⟨e | written, m₁⟩
  · rfl
  · dsimp only
    cases written <;> cases ref.strict <;> rfl

/-- A delete that is reached goes on with the attempt. -/
theorem Reaches.on_delete (hreach : Reaches "delete" key m m') (hname : ref.name = .ordinary key)
    (hsuper : ref.isSuper = false) (call : Caller) :
    on (delete call ref) m =
      match on (Ordinary.delete call ref.base key) m' with
      | (.ok true, m₁) => (.ok true, m₁)
      | (.ok false, m₁) =>
        (if ref.strict then .error (.fault (Fault.arising m₁.heap (.deleteRefused key ref)))
          else .ok false, m₁)
      | (.error e, m₁) => (.error e, m₁) := by
  unfold delete
  rw [hname, hsuper]
  dsimp only [Bool.false_eq_true, if_false]
  rw [if_neg Bool.false_ne_true, Run.on_bind_ok hreach, Run.on_bind]
  rcases on (Ordinary.delete call ref.base key) m' with ⟨e | gone, m₁⟩
  · rfl
  · dsimp only
    cases gone <;> cases ref.strict <;> rfl

/-- What stops the note of an ordinary write stops the write. -/
theorem on_write_unnoted {e : Stop} (hnote : on (noteOrdinary "write" key) m = (.error e, m))
    (hname : ref.name = .ordinary key) : on (write call ref value) m = (.error e, m) := by
  unfold write
  rw [hname]
  exact Run.on_bind_error hnote

/-- What stops the note of an ordinary delete stops the delete. -/
theorem on_delete_unnoted {e : Stop} (hnote : on (noteOrdinary "delete" key) m = (.error e, m))
    (hname : ref.name = .ordinary key) (hsuper : ref.isSuper = false) :
    on (delete call ref) m = (.error e, m) := by
  unfold delete
  rw [hname, hsuper]
  exact Run.on_bind_error hnote

/-- A write that is reached and refused ends with the refusal on the machine on which it was tried.
-/
theorem Reaches.on_write_refused (hreach : Reaches "write" key m m') (hname : ref.name = .ordinary key)
    (hrefused : on (Ordinary.set call ref.base key value ref.thisValue) m' = (.ok false, m')) :
    on (write call ref value) m
      = (if ref.strict then .error (.fault (.writeRefused key ref)) else .ok (), m') := by
  rw [hreach.on_write hname, hrefused]
  obtain ⟨trace, rfl, shown, hshown⟩ := hreach.noted
  -- The key was put into words on this heap, so the refusal can be told.
  dsimp only
  rw [Fault.arising_writeRefused ref hshown]

/-- A delete that is reached and refused ends with the refusal on the machine on which it was tried.
-/
theorem Reaches.on_delete_refused (hreach : Reaches "delete" key m m') (hname : ref.name = .ordinary key)
    (hsuper : ref.isSuper = false)
    (hrefused : on (Ordinary.delete call ref.base key) m' = (.ok false, m')) :
    on (delete call ref) m
      = (if ref.strict then .error (.fault (.deleteRefused key ref)) else .ok false, m') := by
  rw [hreach.on_delete hname hsuper, hrefused]
  obtain ⟨trace, rfl, shown, hshown⟩ := hreach.noted
  dsimp only
  rw [Fault.arising_deleteRefused ref hshown]

section

variable (hcall : call.AnswersFields) (hplain : Protocol.computes m.heap ref.base key = false)
  (hkey : m.heap.isPrimitive key = true) (hname : ref.name = .ordinary key)
include hcall hplain hkey

/-- A write that is reached and refused leaves the machine on which it was tried. -/
theorem Reaches.ordinarySet_refused (hreach : Reaches "write" key m m')
    (hrefused : (on (Ordinary.set call ref.base key value ref.thisValue) m').1 = .ok false) :
    on (Ordinary.set call ref.base key value ref.thisValue) m' = (.ok false, m') := by
  obtain ⟨trace, rfl, -⟩ := hreach.noted
  rcases hset : on (Ordinary.set call ref.base key value ref.thisValue) { m with trace }
    with ⟨written, m₁⟩
  rw [hset] at hrefused
  dsimp only at hrefused
  subst hrefused
  obtain ⟨rfl, -⟩ := Ordinary.set_refused (m := { m with trace }) hcall hplain
    (Heap.keyOf?_of_isPrimitive hkey) hset
  rfl

/-- A delete that is reached settles. -/
theorem Reaches.delete_settles (hreach : Reaches "delete" key m m') :
    Ordinary.DeleteSettles call ref.base key m' := by
  obtain ⟨trace, rfl, -⟩ := hreach.noted
  exact Ordinary.delete_settles (m := { m with trace }) hcall hplain
    (Heap.keyOf?_of_isPrimitive hkey)

/-- A delete that is reached and refused leaves the machine on which it was tried. -/
theorem Reaches.ordinaryDelete_refused (hreach : Reaches "delete" key m m')
    (hrefused : (on (Ordinary.delete call ref.base key) m').1 = .ok false) :
    on (Ordinary.delete call ref.base key) m' = (.ok false, m') := by
  rcases hreach.delete_settles hcall hplain hkey with
    ⟨gone, m₁, hdelete, hsame⟩ | ⟨-, e, m₁, hdelete, -⟩
  · rw [hdelete] at hrefused
    cases hrefused
    obtain ⟨rfl, -⟩ := hsame rfl
    exact hdelete
  · rw [hdelete] at hrefused
    cases hrefused

include hname

/-- Every write through a reference to an ordinary slot ends so, unless the host has a function
behind it. -/
theorem writeEnds (value : Value) : WriteEnds call ref key value m := by
  refine ⟨⟨fun hfails => ?_, ?_⟩, fun m' hreach hrefused => ?_⟩
  · rcases reaches_or_fails "write" key m with ⟨m', hreach⟩ | ⟨fault, hnote, hkind, -⟩
    · refine ⟨m', hreach, ?_⟩
      rw [hreach.on_write hname] at hfails
      generalize on (Ordinary.set call ref.base key value ref.thisValue) m' = ended at hfails ⊢
      obtain ⟨e | written, m₁⟩ := ended
      · exact .inr (by cases e <;> exact hfails)
      · cases written with
        | true => cases hfails
        | false =>
          cases hstrict : ref.strict with
          | true => exact .inl ⟨rfl, rfl⟩
          | false =>
            rw [hstrict] at hfails
            cases hfails
    · rw [on_write_unnoted hnote hname] at hfails
      exact (hkind (Option.some.inj hfails)).elim
  · rintro ⟨m', hreach, ⟨hstrict, hrefused⟩ | hraised⟩
    · have hset := hreach.ordinarySet_refused hcall hplain hkey hrefused
      rw [hreach.on_write_refused hname hset, hstrict]
      rfl
    · -- What a setter raised passes through.
      rw [hreach.on_write hname]
      generalize on (Ordinary.set call ref.base key value ref.thisValue) m' = ended at hraised ⊢
      obtain ⟨e | written, m₁⟩ := ended
      · cases e <;> exact hraised
      · cases hraised
  · obtain ⟨trace, hm, -⟩ := hreach.noted
    have hset := hreach.ordinarySet_refused hcall hplain hkey hrefused
    exact ⟨hreach.on_write_refused hname hset, trace, hm⟩

/-- So does every delete. -/
theorem deleteEnds (hsuper : ref.isSuper = false) : DeleteEnds call ref key m := by
  refine ⟨⟨fun hfails => ?_, ?_⟩, fun m' hreach => ?_, fun m' hreach hrefused => ?_⟩
  · rcases reaches_or_fails "delete" key m with ⟨m', hreach⟩ | ⟨fault, hnote, -, hkind⟩
    · rw [hreach.on_delete hname hsuper] at hfails
      rcases hreach.delete_settles hcall hplain hkey with ⟨gone, m₁, hdelete, -⟩ | ⟨-, e, m₁, hdelete, hforeign⟩
      · rw [hdelete] at hfails
        cases gone with
        | true => cases hfails
        | false =>
          cases hstrict : ref.strict with
          | true => exact ⟨m', hreach, rfl, by rw [hdelete]⟩
          | false =>
            rw [hstrict] at hfails
            cases hfails
      · -- What the host ends with is no failure of the language.
        rw [hdelete] at hfails
        cases e with
        | outside detour => cases hfails
        | fault cause =>
          have hkind : cause.kind = .strictDeleteFailure := Option.some.inj hfails
          rw [Stop.IsForeign, hkind] at hforeign
          cases hforeign
    · rw [on_delete_unnoted hnote hname hsuper] at hfails
      exact (hkind (Option.some.inj hfails)).elim
  · rintro ⟨m', hreach, hstrict, hrefused⟩
    have hdelete := hreach.ordinaryDelete_refused hcall hplain hkey hrefused
    rw [hreach.on_delete_refused hname hsuper hdelete, hstrict]
    rfl
  · rw [hreach.on_delete hname hsuper]
    rcases hreach.delete_settles hcall hplain hkey with
      ⟨gone, m₁, hdelete, -⟩ | ⟨hforeign, e, m₁, hdelete, -⟩
    · refine .inl ⟨gone, m₁, hdelete, fun hanswered => ?_⟩
      rw [hdelete]
      cases gone with
      | true => rfl
      | false =>
        cases hstrict : ref.strict with
        | true => exact (hanswered ⟨hstrict, rfl⟩).elim
        | false => rfl
    · obtain ⟨trace, rfl, -⟩ := hreach.noted
      exact .inr ⟨hforeign, e, m₁, hdelete, by rw [hdelete]⟩
  · obtain ⟨trace, hm, -⟩ := hreach.noted
    have hdelete := hreach.ordinaryDelete_refused hcall hplain hkey hrefused
    exact ⟨hreach.on_delete_refused hname hsuper hdelete, trace, hm⟩

end

end Dispatch

/-! ## The main result -/

/-- A machine with a tuple of one item. -/
def withTuple : Machine :=
  { Machine.blank with heap := (Machine.blank.heap.alloc (.tuple [.int 1])).2 }

/-- The strict reference to that item. -/
def tupleItem : Reference := ⟨.object 4, .ordinary (.int 0), .object 4, true, true, false⟩

/-- A machine with a record, object 6, whose slot `x` has a setter that raises a write failure of
its own, and an object, object 8, of a class with a function behind the attribute `p`. That function
sets the attribute `q` of the object to the value and then raises an attribute error. -/
def withFailingSetters : Machine :=
  let (setter, heap) := Machine.blank.heap.alloc
    (.function ⟨none, false, .raise ⟨.strictWriteFailure, "boom"⟩, .plain⟩)
  let (accessor, heap) := heap.alloc (.accessor (some .null) (some (.object setter)))
  let slots : Slots := Slots.put .empty (.str "x") (.str "x") (.object accessor)
  let (_, heap) := heap.alloc (.record .plain slots none false)
  let kind : HostClass := { HostClass.plain with computed := ["p"] }
  let body (arguments : List Value) : HostProgram :=
    .set (.object 8) (.str "q") (arguments[1]?.getD .null) .null fun _ =>
      .raise ⟨.attributeError, "read only"⟩
  let (part, heap) := heap.alloc (.function ⟨none, false, .program [] body, .plain⟩)
  let (_, heap) := heap.alloc (.instance kind)
  { Machine.blank with heap :=
    { heap with classParts := heap.classParts.insert (.attribute kind "p" .set) (.object part) } }

end ChainScript
