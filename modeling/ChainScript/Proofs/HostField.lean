import ChainScript.Invoke
import ChainScript.Proofs.FieldAction

/-!
# Fields that the host looks after

Of the attributes that the host looks after, those without a function behind them are fields.
Reading one changes nothing, and setting or deleting one either does so or leaves all as it was. So
an access to a field that is refused leaves no trace, and calls nothing.
-/

namespace ChainScript

open Run (on)

/-- The end is none that the language itself makes: a fault of the host's own, or outside. -/
def Stop.IsForeign : Stop → Prop
  | .fault cause => cause.kind.isLanguage = false
  | .outside _ => True

namespace Run

variable {α β : Type}

/-- Where the action ends with no value, all is as it was, and the end is none of the language's
own. -/
def Clean (x : Run α) : Prop :=
  ∀ m e m', on x m = (.error e, m') → m' = m ∧ e.IsForeign

namespace Clean

/-- An answer is given cleanly. -/
theorem pure (a : α) : Clean (Pure.pure a) := nofun

/-- A failure that is none of the language's own is clean. -/
theorem failNative {kind : FaultKind} (hkind : kind.isLanguage = false) :
    Clean (Run.failNative kind : Run α) := by
  rintro m e m' ⟨⟩
  exact ⟨rfl, hkind⟩

/-- Ending outside is clean. -/
theorem outside : Clean (Run.outside : Run α) := by
  rintro m e m' ⟨⟩
  exact ⟨rfl, .intro⟩

/-- Replacing an object never fails. -/
theorem put (id : ObjectId) (o : Object) : Clean (Run.put id o) := nofun

/-- Nor does changing the machine. -/
theorem modify (f : Machine → Machine) : Clean (modify f : Run Unit) := nofun

/-- What cannot be printed is a fault of the host's own. -/
theorem ofPrinted (printed : Printed α) : Clean (Run.ofPrinted printed) := by
  intro m e m' he
  rw [on_ofPrinted] at he
  cases printed with
  | ok a => cases he
  | error failure =>
    cases he
    exact ⟨rfl, by cases failure <;> rfl⟩

/-- Looking at the machine first changes nothing. -/
theorem look {x : Run α} {f : α → Run β} (hx : Clean x) (hleaves : ∀ m, (on x m).2 = m)
    (hf : ∀ a, Clean (f a)) : Clean (x >>= f) := by
  intro m e m' he
  have hm := hleaves m
  rw [on_bind] at he
  rcases hxm : on x m with ⟨stop | a, m₁⟩
  · rw [hxm] at he
    cases he
    exact hx m _ _ hxm
  · rw [hxm] at he hm
    obtain rfl : m₁ = m := hm
    exact hf a _ _ _ he

/-- What goes on cleanly from every machine does from the one that is there. -/
theorem get {f : Machine → Run β} (hf : ∀ m, Clean (f m)) : Clean (MonadState.get >>= f) :=
  look (fun _ _ _ he => nomatch he) (fun _ => rfl) hf

/-- What goes on cleanly from every heap does from the one that is there. -/
theorem heap {f : Heap → Run β} (hf : ∀ h, Clean (f h)) : Clean (Run.heap >>= f) :=
  look (fun _ _ _ he => nomatch he) (fun _ => rfl) hf

/-- What goes on cleanly behind a detour is clean with it. -/
theorem detour {guard : Guard} {d : Detour} {f : Unit → Run β} (hf : ∀ u, Clean (f u)) :
    Clean (Run.detour guard d >>= f) := by
  refine look (fun m e m' he => ?_) (fun m => by rw [on_detour]) hf
  rw [on_detour] at he
  cases hd : guard d with
  | true =>
    rw [hd] at he
    cases he
    exact ⟨rfl, .intro⟩
  | false =>
    rw [hd] at he
    cases he

/-- What goes on to answer is as clean as before. -/
theorem answer {x : Run α} (hx : Clean x) (f : α → β) : Clean (do return f (← x)) := by
  intro m e m' he
  rw [on_bind] at he
  rcases hxm : on x m with ⟨stop | a, m₁⟩
  · rw [hxm] at he
    cases he
    exact hx m _ _ hxm
  · rw [hxm] at he
    cases he

/-- What was caught left all as it was, and the other answer is given in its place. -/
theorem caught {x : Run α} (hx : Clean x) (guard : Guard) (kinds : FaultKind → Bool)
    (otherwise : α) (m : Machine) :
    on (Run.catching guard kinds x otherwise) m = on x m
      ∨ on (Run.catching guard kinds x otherwise) m = (.ok otherwise, m)
      ∨ ∃ detour, on (Run.catching guard kinds x otherwise) m = (.error (.outside detour), m) := by
  rw [Run.catching, on_tryCatch]
  rcases hxm : on x m with ⟨e | a, m₁⟩
  · obtain ⟨rfl, -⟩ := hx m e m₁ hxm
    cases e with
    | outside detour => exact .inl rfl
    | fault cause =>
      dsimp only
      split
      · split
        · rw [on_bind, on_detour]
          cases guard .forgive with
          | true => exact .inr (.inr ⟨_, rfl⟩)
          | false => exact .inr (.inl rfl)
        · exact .inr (.inl rfl)
      · exact .inl rfl
  · exact .inl rfl

/-- Catching faults keeps an action clean. -/
theorem catching {x : Run α} (hx : Clean x) (guard : Guard) (kinds : FaultKind → Bool)
    (otherwise : α) : Clean (Run.catching guard kinds x otherwise) := by
  intro m e m' he
  rcases hx.caught guard kinds otherwise m with hsame | hcaught | ⟨detour, hcaught⟩
  · exact hx m e m' (hsame.symm.trans he)
  · cases hcaught.symm.trans he
  · cases hcaught.symm.trans he
    exact ⟨rfl, .intro⟩

end Clean

end Run

/-- The actions by which fields are accessed are clean. -/
theorem FieldAction.clean {changes : Bool} {α : Type} {x : Run α} (hx : FieldAction changes x) :
    Run.Clean x := by
  induction hx with
  | pure a => exact .pure a
  | failNative hkind => exact .failNative hkind
  | outside => exact .outside
  | ofPrinted printed f => exact (Run.Clean.ofPrinted printed).answer f
  | get _ _ ih => exact .get ih
  | heap _ ih => exact .heap ih
  | detour _ ih => exact .detour ih
  | put id o => exact .put id o
  | modify => exact .modify _

namespace Protocol

open Run (Clean)

variable {m m' : Machine} {guard : Guard} {v : Value} {name : String}

/-- Whether the host has a function behind the attribute that a key names. -/
def computes (h : Heap) (base : Value) : Value → Bool
  | .str name => (computed? h base name .get).isSome
  | _ => false

/-- Where there is a function for one kind of access there is one for every kind. -/
theorem computed?_eq_none {h : Heap} (hplain : computes h v (.str name) = false)
    (kind : AccessKind) : computed? h v name kind = none := by
  unfold computes computed? at hplain
  unfold computed?
  dsimp only at hplain ⊢
  split
  · rename_i ho
    rw [ho] at hplain
    dsimp only at hplain
    split at hplain
    · cases hplain
    · rename_i hcomputed
      rw [if_neg hcomputed]
  · rename_i ho
    rw [ho] at hplain
    dsimp only at hplain
    split at hplain
    · cases hplain
    · rename_i hcomputed
      rw [if_neg hcomputed]
  · rfl

/-! ## Serving an access -/

/-- Goes on where a set or a delete is refused, and answers whether it was done. -/
def refusable (guard : Guard) (x : Run Unit) : Run Value :=
  Run.catching guard refuses (do x; return .bool true) (.bool false)

/-- Whether an attribute is there to be read. -/
def there (guard : Guard) (x : Run Value) : Run Bool :=
  Run.catching guard misses (do let _ ← x; return true) false

/-- Carries out an access to a field, which calls nothing. -/
def serveField (guard : Guard) (v : Value) (name : String) : AccessKind → List Value → Run Value
  | .get, [] => Run.catching guard misses (readField guard v name) .undefined
  | .set, [new] => refusable guard (writeField guard v name new)
  | .delete, [] => do
    if ← there guard (readField guard v name) then refusable guard (eraseField guard v name)
    else return .bool true
  | _, _ => Run.failNative .typeError

/-- Looking whether a field is there changes nothing. -/
theorem there_leaves (guard : Guard) (v : Value) (name : String) (m : Machine) :
    (on (there guard (readField guard v name)) m).2 = m := by
  have hread : (on (do let _ ← readField guard v name; return true) m).2 = m := by
    have hleaves := (fieldAction_readField guard v name).leaves m
    rw [Run.on_bind]
    revert hleaves
    rcases on (readField guard v name) m with ⟨e | found, m₁⟩ <;> exact id
  have hclean := (fieldAction_readField guard v name).clean.answer fun _ => true
  rcases hclean.caught guard misses false m with hsame | hcaught | ⟨detour, hcaught⟩
  · rw [there, hsame, hread]
  · rw [there, hcaught]
  · rw [there, hcaught]

/-- An access to a field is clean. -/
theorem clean_serveField (guard : Guard) (v : Value) (name : String) (kind : AccessKind)
    (rest : List Value) : Clean (serveField guard v name kind rest) := by
  unfold serveField
  split
  · exact (fieldAction_readField _ _ _).clean.catching _ _ _
  · exact ((fieldAction_writeField _ _ _ _).clean.answer _).catching _ _ _
  · refine .look (((fieldAction_readField _ _ _).clean.answer _).catching _ _ _)
      (there_leaves guard v name) fun found => ?_
    split
    · exact ((fieldAction_eraseField _ _ _).clean.answer _).catching _ _ _
    · exact .pure _
  · exact .failNative rfl

/-- A set or a delete that is refused leaves all as it was. -/
theorem refusable_refused {x : Run Unit} (hx : Clean x) {answer : Value}
    (hends : on (refusable guard x) m = (.ok answer, m')) (hrefused : answer ≠ .bool true) :
    m' = m := by
  rcases (hx.answer fun _ => Value.bool true).caught guard refuses (.bool false) m with
    hsame | hcaught | ⟨detour, hcaught⟩
  · obtain ⟨_, _, -, hanswer⟩ := Run.exists_of_on_bind (hsame.symm.trans hends)
    cases hanswer
    exact (hrefused rfl).elim
  · cases hcaught.symm.trans hends
    rfl
  · cases hcaught.symm.trans hends

/-- An access to a field that is refused leaves all as it was. -/
theorem serveField_refused {kind : AccessKind} (hkind : kind ≠ .get) {rest : List Value} {answer : Value}
    (hends : on (serveField guard v name kind rest) m = (.ok answer, m'))
    (hrefused : answer ≠ .bool true) : m' = m := by
  unfold serveField at hends
  split at hends
  · exact (hkind rfl).elim
  · exact refusable_refused (fieldAction_writeField _ _ _ _).clean hends hrefused
  · have hleaves := there_leaves guard v name m
    rw [Run.on_bind] at hends
    rcases hthere : on (there guard (readField guard v name)) m with ⟨e | found, m₁⟩
    · rw [hthere] at hends
      cases hends
    · rw [hthere] at hends hleaves
      obtain rfl : m₁ = m := hleaves
      cases found with
      | true => exact refusable_refused (fieldAction_eraseField _ _ _).clean hends hrefused
      | false =>
        cases hends
        exact (hrefused rfl).elim
  · cases hends

section

variable (hplain : computes m.heap v (.str name) = false)
include hplain

/-- An attribute without a function behind it is read as a field. -/
theorem on_read (guard : Guard) (call : Caller) :
    on (read guard call v name) m = on (readField guard v name) m := by
  rw [read, Run.on_bind_ok (Run.on_heap m), computed?_eq_none hplain]

/-- It is set as a field. -/
theorem on_write (guard : Guard) (call : Caller) (new : Value) :
    on (write guard call v name new) m = on (writeField guard v name new) m := by
  rw [write, Run.on_bind_ok (Run.on_heap m), computed?_eq_none hplain]

/-- It is deleted as a field. -/
theorem on_erase (guard : Guard) (call : Caller) :
    on (erase guard call v name) m = on (eraseField guard v name) m := by
  rw [erase, Run.on_bind_ok (Run.on_heap m), computed?_eq_none hplain]

/-- Every access to it is served as one of the field, so it calls nothing. -/
theorem on_serve (guard : Guard) (call : Caller) (kind : AccessKind) (rest : List Value) :
    on (serve guard call name kind (v :: rest)) m = on (serveField guard v name kind rest) m := by
  have hrefusable : ∀ {x y : Run Unit}, on x m = on y m →
      on (refusable guard x) m = on (refusable guard y) m := by
    intro x y hxy
    simp only [refusable, Run.catching, Run.on_tryCatch, Run.on_bind, hxy]
  have hthere : on (there guard (read guard call v name)) m
      = on (there guard (readField guard v name)) m := by
    simp only [there, Run.catching, Run.on_tryCatch, Run.on_bind, on_read hplain]
  cases kind with
  | get =>
    cases rest with
    | nil =>
      simp only [serve, serveField, Run.catching, Run.on_tryCatch, on_read hplain]
    | cons _ _ => rfl
  | set =>
    rcases rest with _ | ⟨new, _ | _⟩
    · rfl
    · exact hrefusable (on_write hplain guard call new)
    · rfl
  | delete =>
    cases rest with
    | nil =>
      have hleaves := there_leaves guard v name m
      show on (there guard (read guard call v name) >>= _) m = on (there guard _ >>= _) m
      rw [Run.on_bind, Run.on_bind, hthere]
      revert hleaves
      rcases on (there guard (readField guard v name)) m with ⟨e | found, m₁⟩
      · rintro -
        rfl
      · rintro rfl
        cases found with
        | true => exact hrefusable (on_erase hplain guard call)
        | false => rfl
    | cons _ _ => rfl

end

end Protocol

/-! ## Callers that leave fields to the host -/

namespace Caller

/-- What the call comes to where an access to a field is asked for, if it comes to a value, is what
the host does; any other end is none of the language's own. -/
structure AnswersFields (call : Caller) : Prop where
  answers {m m' : Machine} {v answer : Value} {name : String} {kind : AccessKind} {rest : List Value} :
    Protocol.computes m.heap v (.str name) = false →
    on (call (.builtin (.attribute name kind)) (v :: rest)) m = (.ok answer, m') →
    on (Protocol.serveField .none v name kind rest) m = (.ok answer, m')
  fails {m m' : Machine} {v : Value} {name : String} {kind : AccessKind} {rest : List Value} {e : Stop} :
    Protocol.computes m.heap v (.str name) = false →
    on (call (.builtin (.attribute name kind)) (v :: rest)) m = (.error e, m') → e.IsForeign

/-- Where an access to a field is asked for, the call does what the host does. -/
def ServesFields (call : Caller) : Prop :=
  ∀ m {v name}, Protocol.computes m.heap v (.str name) = false → ∀ kind rest,
    on (call (.builtin (.attribute name kind)) (v :: rest)) m
      = on (Protocol.serveField .none v name kind rest) m

/-- A call that has room for one more serves fields. -/
theorem servesFields_invoke (depth : Nat) : ServesFields (invoke (depth + 1)) := by
  intro m v name hplain kind rest
  rw [← Protocol.on_serve hplain .none (guarded .none depth) kind rest]
  rfl

/-- Calling answers for the fields of the host's own objects. -/
theorem answersFields_invoke (depth : Nat) : AnswersFields (invoke depth) := by
  cases depth with
  | zero =>
    refine ⟨fun _ hends => ?_, fun _ hends => ?_⟩
    · cases hends
    · cases hends
      exact rfl
  | succ depth =>
    have hserves := servesFields_invoke depth
    refine ⟨fun hplain hends => (hserves _ hplain _ _).symm.trans hends, fun hplain hends => ?_⟩
    rw [hserves _ hplain] at hends
    exact (Protocol.clean_serveField _ _ _ _ _ _ _ _ hends).2

variable {call : Caller} {m m' : Machine} {v : Value} {name : String} {kind : AccessKind}
  {rest : List Value}

/-- A set or a delete of a field that is refused leaves all as it was, and every caller that serves
fields meets the same refusal. -/
theorem AnswersFields.refused (hcall : call.AnswersFields) (hkind : kind ≠ .get)
    (hplain : Protocol.computes m.heap v (.str name) = false)
    (hends : on (do return (← call (.builtin (.attribute name kind)) (v :: rest)) == Value.bool true) m
      = (.ok false, m')) :
    m' = m ∧ ∀ other : Caller, other.ServesFields →
      on (do return (← other (.builtin (.attribute name kind)) (v :: rest)) == Value.bool true) m
        = (.ok false, m) := by
  obtain ⟨answer, m₁, hcalled, hanswer⟩ := Run.exists_of_on_bind hends
  rw [Run.on_pure] at hanswer
  obtain ⟨hbool, rfl⟩ := Prod.mk.inj hanswer
  have hrefused : (answer == .bool true) = false := Except.ok.inj hbool
  have hserved := hcall.answers hplain hcalled
  obtain rfl := Protocol.serveField_refused hkind hserved (by simpa using hrefused)
  refine ⟨rfl, fun other hother => ?_⟩
  rw [Run.on_bind, hother _ hplain, hserved]
  exact congrArg (·, m₁) (congrArg Except.ok hrefused)

end Caller

end ChainScript
