import ChainScript.Invoke
import ChainScript.Proofs.LockstepEval
import ChainScript.Proofs.LockstepProtocol

/-!
# Calls in lockstep

The functions of the library, the methods of stores, the classes, and what functions of the host do
come to the same in both runs if the calls that they make do. By induction on the bound on nested
calls so does every call, and with it every run of a program: one that is guarded goes in lockstep
with one that is not.
-/

namespace ChainScript

namespace Pairing

variable {P : Pairing} {h : Heap}

/-! ## Iteration -/

/-- An iterator over a store fails in both runs when the store has grown or shrunk. -/
theorem steady_fromStore (store : ObjectId) (size : Nat) (part : Slot → Value) :
    P.Steady h (Run.iterate.fromStore store size part) := by
  refine .heap ?_
  split
  · split
    · exact .pure rfl
    · exact .failNative _
  · exact .outside

/-- Iterating a value is steady. An iterator is emptied before it is read. -/
theorem steady_iterate (v : Value) : P.Steady h (Run.iterate v) := by
  unfold Run.iterate
  split
  · exact .pure rfl
  · refine .heap ?_
    split
    · exact .pure rfl
    · exact .pure rfl
    · exact .pure rfl
    · exact .pure rfl
    · exact .pure rfl
    · exact .pure rfl
    · rename_i source ho
      refine (steady_put ho (.iterator ..)).andThen fun _ h' => ?_
      split
      · exact .pure rfl
      · exact steady_fromStore _ _ _
      · exact steady_fromStore _ _ _
    · exact .outside
    · exact .failNative _
  · exact .failNative _

/-- A pair is an iterable of two items. -/
theorem steady_pairOf (v : Value) : P.Steady h (Run.pairOf v) := by
  refine (steady_iterate v).andThen fun items h' => ?_
  split
  · exact .pure rfl
  · exact .failNative _

/-! ## The library -/

/-- Freezing changes nothing but the flag of the record. -/
theorem steady_freeze (v : Value) : P.Steady h (Library.freeze v) := by
  refine .heap ?_
  split
  · rename_i ho
    exact (steady_put ho (.freeze ..)).andThen fun _ h' => .pure rfl
  · exact .failSame _

/-- A record is created without a parent, or with one that is there already. -/
theorem steady_create (parent : Value) : P.Steady h (Library.create parent) := by
  unfold Library.create
  split
  · exact steady_alloc rfl
  · refine .heap ?_
    split
    · rename_i hr
      refine (Lockstep.alloc ?_).mono fun a b h' hab => hab.1.trans hab.2.1.symm
      rintro p ⟨⟩
      exact hr
    · exact .failSame _
  · exact .failSame _

/-- The keys of a record are listed steadily. -/
theorem steady_keys (v : Value) : P.Steady h (Library.keys v) := by
  refine .heap ?_
  split
  · exact steady_alloc rfl
  · exact .failSame _

/-- Whether a record has a key of its own is looked up steadily. -/
theorem steady_hasOwn (v key : Value) : P.Steady h (Library.hasOwn v key) := by
  refine .heap ?_
  split
  · exact .keyOf fun k _ => .pure rfl
  · exact .pure rfl

/-- Every function of the library is steady. -/
theorem steady_library (function : LibraryFunction) (arguments : List Value) :
    P.Steady h (Library.run function arguments) := by
  unfold Library.run
  split
  · exact steady_alloc rfl
  · exact steady_alloc rfl
  · exact steady_alloc rfl
  · exact steady_create _
  · exact steady_create _
  · exact steady_freeze _
  · exact (steady_hasOwn _ _).andThen fun _ _ => .pure rfl
  · exact .heap (.pure rfl)
  · exact steady_keys _
  · exact .failNative _

/-- Making the bindings of a new global environment is steady. -/
theorem steady_bindings : P.Steady h Library.bindings := by
  have hmethod : ∀ (library : Value) (f : LibraryFunction) (h : Heap), P.Steady h (do
      return (f.name, ← Run.alloc (.method (.library (library.objectId?.getD 0) f)))) :=
    fun _ f h => (steady_alloc rfl).andThen fun _ _ => .pure rfl
  refine .get fun m _ _ _ _ _ => ?_
  refine (steady_alloc rfl).andThen fun evaluator _ => ?_
  refine (steady_alloc rfl).andThen fun library _ => ?_
  exact (steady_mapM (hmethod library) _).andThen fun _ _ => .pure rfl

/-! ## Stores -/

variable {α β : Type} {R : α → β → Heap → Prop}

/-- What has entries is a store. -/
theorem object?_of_entries? {id : ObjectId} {entries : StoreEntries} {weak : Bool}
    (he : Store.entries? h id = some (entries, weak)) :
    h.object? id = some (Store.ofEntries weak entries) := by
  unfold Store.entries? at he
  split at he
  · rename_i ho
    cases he
    exact ho
  · rename_i ho
    cases he
    exact ho
  · cases he

/-- What follows the entries of a store goes on with them. -/
theorem Lockstep.entriesOf {id : ObjectId} {f : StoreEntries × Bool → Run α}
    {g : StoreEntries × Bool → Run β}
    (hfg : ∀ entries weak, h.object? id = some (Store.ofEntries weak entries) →
      P.Lockstep h R (f (entries, weak)) (g (entries, weak))) :
    P.Lockstep h R (Store.entriesOf id >>= f) (Store.entriesOf id >>= g) := by
  simp only [Store.entriesOf, bind_assoc]
  refine .heap ?_
  split
  · rename_i found he
    exact hfg found.1 found.2 (object?_of_entries? he)
  · exact (Lockstep.failNative (R := fun _ _ _ => False) _).bind fun _ _ _ hf => hf.elim

/-- A store stays a store of its kind. -/
theorem change_ofEntries {guard : Guard} (weak : Bool) {entries entries' : StoreEntries}
    (c : entries.Change entries') :
    (Store.ofEntries weak entries).Change guard (Store.ofEntries weak entries') := by
  cases weak with
  | false => exact .store c
  | true => exact .weakStore c

/-- Whether a weak store takes a key is seen on the heap. -/
theorem looks_checkWeakKey (key : Value) : (Store.checkWeakKey key).Looks := by
  refine .bind .heap fun h => ?_
  split
  · exact .fail _
  · split
    · exact .fail _
    · exact .pure _

/-- Entering a value in a store is steady. A weak store may refuse the key. -/
theorem steady_storeSet (id : ObjectId) (key value : Value) :
    P.Steady h (Store.set id key value) := by
  refine .entriesOf fun entries weak ho => ?_
  dsimp only
  split
  · exact .look (looks_checkWeakKey key) fun _ _ =>
      steady_put ho (change_ofEntries weak (.put key value))
  · exact steady_put ho (change_ofEntries weak (.put key value))

/-- Removing a key is steady. -/
theorem steady_storeDelete (id : ObjectId) (key : Value) : P.Steady h (Store.delete id key) :=
  .entriesOf fun _ weak ho =>
    (steady_put ho (change_ofEntries weak (.erase key))).andThen fun _ _ => .pure rfl

/-- The pairs of a store are made anew for every reader. -/
theorem steady_storeItems (id : ObjectId) : P.Steady h (Store.items id) :=
  .entriesOf fun entries _ _ =>
    (steady_mapM (fun _ _ => steady_alloc rfl) entries.values).andThen fun _ _ => steady_alloc rfl

/-- Every method of a store is steady. -/
theorem steady_callMethod (id : ObjectId) (operation : StoreOperation) (arguments : List Value) :
    P.Steady h (Store.callMethod id operation arguments) := by
  unfold Store.callMethod
  split
  · exact .entriesOf fun _ _ _ => .pure rfl
  · exact .entriesOf fun _ _ _ => .pure rfl
  · exact (steady_storeSet _ _ _).andThen fun _ _ => .pure rfl
  · exact Lockstep.andThen (.entriesOf fun _ _ _ => .pure rfl) fun _ _ => .pure rfl
  · exact (steady_storeDelete _ _).andThen fun _ _ => .pure rfl
  · exact Lockstep.andThen
      (.entriesOf fun _ weak ho => steady_put ho (change_ofEntries weak .clear))
      fun _ _ => .pure rfl
  · exact .entriesOf fun _ _ _ => steady_alloc rfl
  · exact .entriesOf fun _ _ _ => steady_alloc rfl
  · exact steady_storeItems _
  · exact .failNative _

/-- Making a store from pairs is steady. -/
theorem steady_make (weak : Bool) (source : Value) : P.Steady h (Store.make weak source) := by
  have halone : (Store.ofEntries weak .empty).standsAlone = true := by cases weak <;> rfl
  refine (steady_alloc halone).andThen fun store h₁ => .heap ?_
  split
  · refine (steady_iterate source).andThen fun items h₂ => ?_
    refine Lockstep.andThen (steady_forIn (fun item _ h' => ?_) items _) fun _ _ => .pure rfl
    refine (steady_pairOf item).andThen fun pair h₃ => ?_
    dsimp only
    split
    · exact (steady_storeSet _ _ _).andThen fun _ _ => .pure rfl
    · exact .pure rfl
  · exact .pure rfl

/-- What a value shows as the data of a store is the same in both runs. -/
theorem steady_dataOf (v : Value) : P.Steady h (Store.dataOf v) := by
  refine .heap ?_
  split
  · exact .pure rfl
  · exact .pure rfl
  · split
    · exact .outside
    · exact steady_attributeGet _ _

/-- Data is emptied in both runs. That a frozen record is emptied is a detour. -/
theorem paired_emptyData (data : Value) :
    P.Paired h (Store.emptyData P.guard data) (Store.emptyData .none data) := by
  refine .heap ?_
  split
  · rename_i kind slots parent frozen ho
    cases frozen with
    | true =>
      refine .detour fun hg => ?_
      exact (steady_put ho (.emptied hg ..)).andThen fun _ _ => .pure rfl
    | false => exact (steady_put ho (.slots ..)).andThen fun _ _ => .pure rfl
  · rename_i ho
    exact (steady_put ho (.entries ..)).andThen fun _ _ => .pure rfl
  · rename_i ho
    exact (steady_put ho (.items ..)).andThen fun _ _ => .pure rfl
  any_goals exact .failNative _
  · exact .outside

/-- That a method of stores changes a frozen record is a detour, and nothing is described otherwise.
-/
theorem paired_changeData (data : Value) :
    P.Paired h (Store.changeData P.guard data) (Store.changeData .none data) := by
  refine .heap ?_
  split
  · exact .detour fun _ => .outside
  · exact .outside

/-- A method of a strong store does the same in both runs to data that is not the store's own. -/
theorem paired_callLent (v : Value) (operation : StoreOperation) (arguments : List Value) :
    P.Paired h (Store.callLent P.guard v operation arguments)
      (Store.callLent .none v operation arguments) := by
  unfold Store.callLent
  split
  · exact .failNative _
  · refine (steady_dataOf v).andThen fun data _ => ?_
    split
    · exact .failNative _
    · split
      · exact paired_emptyData _
      · exact paired_changeData _
      · exact paired_changeData _
      · exact .outside

/-- Neither run goes on with a method of a weak store on what is none. -/
theorem paired_callWeakLent (v : Value) :
    P.Paired h (Store.callWeakLent P.guard v) (Store.callWeakLent .none v) := by
  refine (steady_dataOf v).andThen fun data _ => ?_
  split
  · exact .outside
  · exact paired_changeData _

/-- So does a method that a store shows. -/
theorem paired_callBound (id : ObjectId) (operation : StoreOperation) (arguments : List Value) :
    P.Paired h (Store.callBound P.guard id operation arguments)
      (Store.callBound .none id operation arguments) := by
  refine .heap ?_
  split
  · exact paired_callLent _ _ _
  · exact steady_callMethod _ _ _

/-- So does a method of stores that is called as a function. -/
theorem paired_callFunction (weak : Bool) (operation : StoreOperation) (arguments : List Value) :
    P.Paired h (Store.callFunction P.guard weak operation arguments)
      (Store.callFunction .none weak operation arguments) := by
  cases arguments with
  | nil => exact .failNative _
  | cons v arguments =>
    refine .heap ?_
    split
    · split
      · exact .outside
      · exact steady_callMethod _ _ _
    · split
      · exact steady_callMethod _ _ _
      · exact .outside
    · split
      · exact paired_callWeakLent _
      · exact paired_callLent _ _ _

/-! ## Classes and handlers -/

/-- What follows a call that was recorded goes on from the same heap. -/
theorem Lockstep.record {name : Value} {arguments : List Value} {f : PUnit → Run α}
    {g : PUnit → Run β} (hfg : P.Lockstep h R (f ⟨⟩) (g ⟨⟩)) :
    P.Lockstep h R (Invoke.record name arguments >>= f) (Invoke.record name arguments >>= g) := by
  intro m s t hm hi hst
  exact hfg { m with log := m.log ++ [⟨name, arguments⟩] } s t hm (P.invariant.record hi _) hst

/-- The slots that a class reads from its source are the same in both runs. -/
theorem steady_slotsOf (source : Value) : P.Steady h (Invoke.entriesOf source) := by
  refine .heap ?_
  split
  · exact .pure rfl
  · exact .pure rfl
  · exact .pure rfl
  · split
    · exact .pure rfl
    · exact .failNative _
  · refine (steady_iterate source).andThen fun items h₁ => ?_
    refine Lockstep.andThen (steady_forIn (fun item slots h' => ?_) items _) fun _ _ => .pure rfl
    exact (steady_pairOf item).andThen fun pair _ => .keyOf fun k _ => .pure rfl

/-- Making an instance of a class is steady. -/
theorem steady_construct (c : Class) (arguments : List Value) :
    P.Steady h (Invoke.construct c arguments) := by
  unfold Invoke.construct
  split
  -- A class makes an object that stands alone, after it has read its source if it takes one.
  all_goals first
    | exact steady_alloc rfl
    | exact .pure rfl
    | exact .failNative _
    | exact steady_make _ _
    | exact .look (.text _) fun _ _ => .pure rfl
    | exact (steady_iterate _).andThen fun _ _ => steady_alloc rfl
    | exact (steady_slotsOf _).andThen fun _ _ => steady_alloc rfl

/-- Fixing the receiver of a function makes a new function. -/
theorem steady_bind (function base : Value) : P.Steady h (Invoke.bind function base) := by
  refine .heap ?_
  split
  · exact steady_alloc rfl
  · exact .failNative _
  · exact steady_alloc rfl

variable {call call' : Caller}

/-- A method that a store shows is called as any value is. -/
theorem paired_callShown (hcall : P.Callers call call') (store : Value) (name : String)
    (arguments : List Value) :
    P.Paired h (Invoke.callShown call store name arguments)
      (Invoke.callShown call' store name arguments) := by
  refine (steady_attributeGet store name).andThen fun found h' => ?_
  cases found with
  | some f => exact hcall _ _ _
  | none => exact .failNative _

/-! ## Functions of the host -/

/-- A function written in the language runs its body in an environment of its own. -/
theorem paired_script (hcall : P.Callers call call') (params : List String) (body : Value)
    (arguments : List Value) :
    P.Paired h (Invoke.script call params body arguments)
      (Invoke.script call' params body arguments) := by
  refine .get fun m s t _ hglobals _ => ?_
  -- The environment of the call is made inside the global one, which need not be older.
  refine (Lockstep.alloc ?_).bind ?_
  · rintro p ⟨⟩
    exact .inl hglobals
  · rintro env _ h₁ ⟨rfl, rfl, -⟩
    exact (steady_programOf body).andThen fun program _ => paired_run hcall _ program

/-- A program of the host may make environments, inside ones that are there. -/
theorem steady_scope (parent : Value) : P.Steady h (Invoke.scope parent) := by
  refine .heap ?_
  split
  · exact steady_alloc rfl
  · rename_i hb
    refine (Lockstep.alloc ?_).mono fun a b h' hab => hab.1.trans hab.2.1.symm
    rintro p ⟨⟩
    exact .inr ⟨_, _, (object?_of_bindings? hb).2⟩
  · exact .failNative _

/-- It may replace the items of a list. -/
theorem steady_refill (list : Value) (items : List Value) :
    P.Steady h (Invoke.refill list items) := by
  refine .heap ?_
  split
  · rename_i ho
    exact steady_put ho (.items ..)
  · exact .failNative _

/-- A handler that is given can be called, or is refused, in both runs. -/
theorem steady_givenHandler (v : Value) : P.Steady h (Host.givenHandler v) := by
  unfold Host.givenHandler
  split
  · exact .pure rfl
  · refine .heap ?_
    split
    · exact .pure rfl
    · exact .failSame _

/-- Handlers are attached in both runs. -/
theorem steady_attach (target onGet onSet onDelete : Value) :
    P.Steady h (Host.attach target onGet onSet onDelete) := by
  unfold Host.attach
  split
  · rename_i c
    refine (steady_givenHandler onGet).andThen fun get _ => ?_
    refine (steady_givenHandler onSet).andThen fun set _ => ?_
    refine (steady_givenHandler onDelete).andThen fun delete _ => ?_
    exact Lockstep.andThen (steady_register fun r => r.attach c ⟨get, set, delete⟩)
      fun _ _ => .pure rfl
  · exact .failSame _

/-- Handlers are taken away in both runs. -/
theorem steady_detach (target : Value) : P.Steady h (Host.detach target) := by
  unfold Host.detach
  split
  · rename_i c
    exact .get fun m _ _ _ _ _ =>
      Lockstep.andThen (steady_register fun r => r.detach c) fun _ _ => .pure rfl
  · exact .pure rfl

/-- What a program of the host requests is done in the same way in both runs. The induction is on
the program, which goes on in the same way because it is answered the same. -/
theorem paired_perform (hcall : P.Callers call call') (program : HostProgram) :
    ∀ h, P.Paired h (Invoke.perform call program) (Invoke.perform call' program) := by
  induction program with
  | answer v => exact fun h => .pure rfl
  | raise failure => exact fun h => .failSame _
  | get base key this next ih =>
    exact fun h => (paired_ordinaryGet hcall _ _ _).andThen fun v _ => ih v _
  | set base key value this next ih =>
    exact fun h => (lockstep_ordinarySet hcall _ _ _ _).bind fun b _ _ hb => hb.1 ▸ ih b _
  | delete base key next ih =>
    exact fun h => (lockstep_ordinaryDelete hcall _ _).bind fun b _ _ hb => hb.1 ▸ ih b _
  | chain base resolver strict next ih =>
    exact fun h => (lockstep_chain _ _ _ _).bind fun r _ _ hr => hr.eq ▸ ih r _
  | binding env name strict next ih =>
    exact fun h => (lockstep_binding _ _ _ _).bind fun r _ _ hr => hr.eq ▸ ih r _
  | read ref next ih =>
    exact fun h => Lockstep.andThen (lockstep_read hcall ref (P.strictness_self ref.strict))
      fun v _ => ih v _
  | write ref value next ih =>
    exact fun h => Lockstep.andThen (lockstep_write hcall ref value (P.strictness_self ref.strict))
      fun _ _ => ih _
  | remove ref next ih =>
    exact fun h => Lockstep.andThen (lockstep_delete hcall ref (P.strictness_self ref.strict))
      fun b _ => ih b _
  | call f arguments next ih =>
    exact fun h => Lockstep.andThen (hcall f arguments h) fun v _ => ih v _
  | scope parent next ih => exact fun h => (steady_scope parent).andThen fun v _ => ih v _
  | run env tree next ih =>
    exact fun h => (steady_programOf tree).andThen fun program _ =>
      (paired_run hcall env program).andThen fun v _ => ih v _
  | record name arguments next ih => exact fun h => .record (ih _)
  | items v next ih => exact fun h => (steady_iterate v).andThen fun items _ => ih items _
  | refill list items next ih => exact fun h => (steady_refill list items).andThen fun _ _ => ih _
  | attach target onGet onSet onDelete next ih =>
    exact fun h => (steady_attach target onGet onSet onDelete).andThen fun _ _ => ih _
  | detach target next ih => exact fun h => (steady_detach target).andThen fun b _ => ih b _
  | suspend once held body next _ ih =>
    exact fun h => (steady_alloc rfl).andThen fun v _ => ih v _

/-- What was put off is done in the same way in both runs when it is awaited. -/
theorem paired_await (hcall : P.Callers call call') (v : Value) :
    P.Paired h (Invoke.await call v) (Invoke.await call' v) := by
  refine .heap ?_
  split
  · rename_i id once held body ho
    split
    · rename_i honce
      subst honce
      exact (steady_put ho (.awaitable ..)).andThen fun _ h' => paired_perform hcall body h'
    · exact paired_perform hcall body h
  · exact .failNative _

/-- The functions that are there from the start do the same in both runs. -/
theorem paired_builtin (hcall : P.Callers call call') (f : Builtin) (arguments : List Value) :
    P.Paired h (Invoke.builtin P.guard call f arguments)
      (Invoke.builtin .none call' f arguments) := by
  unfold Invoke.builtin
  split
  · exact steady_bind _ _
  · exact paired_callShown hcall _ _ _
  · exact (paired_callShown hcall _ _ _).andThen fun _ _ => .pure rfl
  · exact paired_callShown hcall _ _ _
  · exact steady_alloc rfl
  · exact paired_await hcall _
  · exact paired_callFunction _ _ _
  · exact steady_library _ _
  · exact paired_serve hcall _ _ _
  · exact .failNative _

/-- Every method that an object shows does the same in both runs. -/
theorem paired_method (hcall : P.Callers call call') (m : Method) (arguments : List Value) :
    P.Paired h (Invoke.method P.guard call m arguments)
      (Invoke.method .none call' m arguments) := by
  cases m with
  | store receiver operation => exact paired_callBound _ _ _
  | part receiver part => exact paired_callPart hcall _ _
  | library receiver function => exact steady_library _ _

/-- Whatever a function of the host does is the same in both runs. -/
theorem paired_behave (hcall : P.Callers call call') {id : ObjectId} {f : HostFunction}
    (hf : h.object? id = some (.function f)) (arguments : List Value) :
    P.Paired h (Invoke.behave call id f arguments) (Invoke.behave call' id f arguments) := by
  unfold Invoke.behave
  split
  · exact steady_alloc rfl
  · exact .pure rfl
  · exact .pure rfl
  · exact (steady_put hf (.function f _)).andThen fun _ h' => .pure rfl
  · split
    · exact paired_ordinaryGet hcall _ _ _
    · exact .failNative _
  · split
    · exact (lockstep_ordinarySet hcall _ _ _ _).bind fun a b _ hab =>
        .pure (congrArg Value.bool hab.1)
    · exact .failNative _
  · exact .failSame _
  · exact paired_script hcall _ _ _
  · exact paired_perform hcall _ h

/-! ## Calls and runs -/

/-- Every guarded call goes in lockstep with the one that has no guard, however deep calls may nest.
-/
theorem callers_guarded (P : Pairing) (depth : Nat) :
    P.Callers (guarded P.guard depth) (invoke depth) := by
  -- A call at one depth makes its own calls at the depth below, which are in lockstep by induction.
  induction depth with
  | zero => exact fun f arguments h => .failNative _
  | succ depth ih =>
    intro f arguments h
    unfold invoke guarded
    split
    · exact steady_construct _ _
    · exact paired_builtin ih _ _
    · refine .heap ?_
      split
      · rename_i fn hf
        split
        · exact .record (paired_behave ih hf arguments)
        · exact paired_behave ih hf arguments
      · exact ih _ _ _
      · exact .failNative _
      · exact paired_method ih _ _
      · exact .failNative _
    · exact .failNative _

end Pairing

end ChainScript
