import ChainScript.Proofs.Legible
import ChainScript.Proofs.Scope
import ChainScript.Proofs.StoreMethods

/-!
# Stores as programs see them

A program can use a store as a resolver, in `k :: m`, `k :: m = v` and `delete k :: m`, or call its
methods. Both ways lead to the same methods, of a weak store as of any other, and so to the same
entries. Whatever sequence of such uses a program makes, every answer is that of a finite map in
order of entry, and the store holds the pairs of that map in the end.

All this is so where it can be told whether accesses are traced. Where it cannot, no use of a store
comes as far as the store.
-/

namespace ChainScript

open Run (on Yields Leads)

/-! ## Accesses through the resolver -/

/-- The reference of `key :: store`. -/
def storeReference (key : Value) (store : ObjectId) (strict : Bool) : Reference :=
  ⟨key, .virtual (.object store), key, strict, true, false⟩

/-- A null or undefined left operand is refused. -/
theorem on_chain_nullish (m : Machine) {key : Value} (hkey : key.isNullish = true) (resolver : Value)
    (strict : Bool) :
    on (Dispatch.chain key resolver strict) m = (.error (.fault (.notBase key)), m) := by
  have hplain : key.Plain := by
    cases key with
    | null => exact .intro
    | undefined => exact .intro
    | _ => cases hkey
  obtain ⟨text, htext⟩ := m.heap.inspect_plain hplain
  have hfail : on (Ordinary.toObject key) m = (.error (.fault (.notBase key)), m) := by
    have hmessage : (Fault.notBase key).message m.heap
        = .ok (some ("cannot use " ++ text ++ " as an access target")) := by
      simp only [Fault.message, htext]
      rfl
    rw [Ordinary.toObject, if_pos hkey, Run.on_fail, Fault.arising_of_message hmessage]
  rw [Dispatch.chain, Run.on_bind_error hfail]

/-- On any other left operand, what is no primitive is a resolver. -/
theorem on_chain_virtual (m : Machine) {base resolver : Value} (hbase : base.isNullish = false)
    (hresolver : m.heap.isPrimitive resolver = false) (strict : Bool) :
    on (Dispatch.chain base resolver strict) m
      = (.ok ⟨base, .virtual resolver, base, strict, true, false⟩, m) := by
  have htarget : on (Ordinary.toObject base) m = (.ok base, m) := by
    simp [Ordinary.toObject, hbase]
  have hproperty : on (Reference.property base resolver strict .undefined false) m
      = (.ok ⟨base, .virtual resolver, base, strict, true, false⟩, m) := by
    unfold Reference.property
    simp only [hbase]
    refine (Run.on_bind_ok (Run.on_heap m)).trans ?_
    simp only [hresolver]
    rfl
  rw [Dispatch.chain, Run.on_bind_ok htarget, Run.on_bind_ok hproperty]
  rfl

namespace Machine.Keeps

variable {m : Machine} {weak : Bool} {store : ObjectId} {entries : StoreEntries}

/-- The virtual reference to a key through a store is made. -/
theorem on_chain (hs : m.Keeps weak store entries) {key : Value} (hkey : key.isNullish = false)
    (strict : Bool) :
    on (Dispatch.chain key (.object store) strict) m
      = (.ok (storeReference key store strict), m) := by
  have hprimitive : m.heap.isPrimitive (.object store) = false := by
    cases weak <;> simp [Heap.isPrimitive, hs.object, Store.ofEntries]
  exact on_chain_virtual m hkey hprimitive strict

/-- Where it cannot be told whether accesses are traced, a virtual access to the store ends before
its handler is called. -/
theorem serve_untold (hs : m.Keeps weak store entries) (huntold : m.traces? = none) {α : Type}
    (kind : AccessKind) (word : String) {f : Value}
    (hf : Registry.storeHandlers.forKind kind = some f) (goOn : Handler → Run α) :
    on (do
      let handler ← Resolver.handler (.object store) kind
      Dispatch.noteVirtual word (.object store) handler
      goOn handler) m = (.error (.fault (.badFlag "VPROP_DEBUG" m.debugVariable)), m) :=
  (Run.on_bind_ok (hs.handler kind hf)).trans (Run.on_note_bind_untold huntold _ _)

variable (hs : m.Keeps weak store entries) (huntold : m.traces? = none) (call : Caller) (key : Value)
  (strict : Bool)
include hs huntold

/-- Reading through a store fails if the variable does not say whether to trace. -/
theorem read_untold :
    on (Dispatch.read call (storeReference key store strict)) m
      = (.error (.fault (.badFlag "VPROP_DEBUG" m.debugVariable)), m) :=
  hs.serve_untold huntold .get "read" rfl _

/-- So does writing. -/
theorem write_untold (value : Value) :
    on (Dispatch.write call (storeReference key store strict) value) m
      = (.error (.fault (.badFlag "VPROP_DEBUG" m.debugVariable)), m) :=
  hs.serve_untold huntold .set "write" rfl _

/-- So does deleting. -/
theorem delete_untold :
    on (Dispatch.delete call (storeReference key store strict)) m
      = (.error (.fault (.badFlag "VPROP_DEBUG" m.debugVariable)), m) :=
  hs.serve_untold huntold .delete "delete" rfl _

end Machine.Keeps

namespace Machine.Offers

variable {m : Machine} {weak : Bool} {store : ObjectId} {entries : StoreEntries}

/-- A virtual access to the store goes on with the built-in function for its kind. -/
theorem serve (hs : m.Offers weak store entries) {α : Type} {P : Machine → Prop} (kind : AccessKind)
    (word : String) {f : Value} (hf : Registry.storeHandlers.forKind kind = some f)
    {goOn : Handler → Run α} {y : Run α}
    (hgo : ∀ m' : Machine, m'.Offers weak store entries → m'.heap = m.heap →
      Leads (goOn ⟨f, some (.object store)⟩) m' y P) :
    Leads (do
      let handler ← Resolver.handler (.object store) kind
      Dispatch.noteVirtual word (.object store) handler
      goOn handler) m y P := by
  refine .after (hs.handler kind hf) ?_
  obtain ⟨trace, htrace⟩ := hs.note (do return [word, "virtual",
    (← Run.heap).typeName (.object store), "via", Handler.source ⟨f, some (.object store)⟩]) rfl
  exact .after htrace (hgo _ (hs.visit m.current trace) rfl)

/-- Reading `key :: store` gets the value of the key. -/
theorem read (hs : m.Offers weak store entries) (key : Value) (strict : Bool) (depth : Nat) :
    Leads (Dispatch.read (ChainScript.invoke (depth + 2)) (storeReference key store strict)) m
      (Store.callMethod store .get [key])
      fun m' => m'.OffersMade m.heap weak store entries .get :=
  hs.serve .get "read" rfl fun _ hs' hheap =>
    hheap ▸ hs'.callShown .get (fun _ => by decide) [key] depth

/-- Writing `key :: store` sets the value of the key. -/
theorem write (hs : m.Offers weak store entries) (key : Value) (strict : Bool) (value : Value)
    (depth : Nat) :
    Leads (Dispatch.write (ChainScript.invoke (depth + 2)) (storeReference key store strict) value)
      m (do let _ ← Store.callMethod store .set [key, value])
      fun m' => m'.OffersMade m.heap weak store entries .set := by
  refine hs.serve .set "write" rfl fun m' hs' hheap => ?_
  have hcall := hs'.callShown .set (fun _ => by decide) [key, value] depth
  rw [hheap] at hcall
  -- The built-in function answers null, which the write leaves alone.
  refine (hcall.bind (f := fun _ => pure Value.null)).bind.of_eq ?_
  simp only [bind_assoc, pure_bind]

/-- Deleting `key :: store` deletes the key, and succeeds whether it was there or not. -/
theorem delete (hs : m.Offers weak store entries) (key : Value) (strict : Bool) (depth : Nat) :
    Leads (Dispatch.delete (ChainScript.invoke (depth + 2)) (storeReference key store strict)) m
      (do let _ ← Store.callMethod store .delete [key]; return true)
      fun m' => m'.OffersMade m.heap weak store entries .delete :=
  hs.serve .delete "delete" rfl fun _ hs' hheap =>
    hheap ▸ (hs'.callShown .delete (fun _ => by decide) [key] depth).bind

end Machine.Offers

/-! ## Programs -/

/-- A value as an operand. -/
def operand (v : Value) : Node := .literal v none

/-- An operand is evaluated to its value. -/
theorem on_operand (call : Caller) (env v : Value) (m : Machine) :
    on (Eval.eval call env (operand v)) m = (.ok v, { m with current := some (operand v) }) := by
  rw [operand, Eval.eval]
  rfl

/-- Operands in a row are evaluated to their values. -/
theorem on_operands (call : Caller) (env : Value) (vs : List Value) (m : Machine) :
    ∃ current, on (Eval.evalAll call env (vs.map operand)) m = (.ok vs, { m with current }) := by
  induction vs generalizing m with
  | nil => exact ⟨m.current, by rw [List.map_nil, Eval.evalAll]; rfl⟩
  | cons v vs ih =>
    obtain ⟨current, hrest⟩ := ih { m with current := some (operand v) }
    refine ⟨current, ?_⟩
    rw [List.map_cons, Eval.evalAll, Run.on_bind_ok (on_operand call env v m),
      Run.on_bind_ok hrest]
    rfl

/-- The reference of a member of an object that is an operand. -/
theorem on_memberReference (call : Caller) (env : Value) (id : ObjectId) (name : String) (m : Machine) :
    on (Eval.memberReference (Eval.eval call env (operand (.object id))) (.str name)) m
      = (.ok ⟨.object id, .ordinary (.str name), .object id, m.strict, true, false⟩,
        { m with current := some (operand (.object id)) }) := by
  rw [Eval.memberReference, Run.on_bind_ok (on_operand call env _ m)]
  rfl

/-- Where it cannot be told whether accesses are traced, no member is read. -/
theorem on_member_untold {m : Machine} (huntold : m.traces? = none) (call : Caller) (env : Value)
    (id : ObjectId) (name : String) :
    ∃ current, on (Eval.eval call env (.member (operand (.object id)) (.str name) none)) m
      = (.error (.fault (.badFlag "VPROP_DEBUG" m.debugVariable)), { m with current }) := by
  refine ⟨some (.member (operand (.object id)) (.str name) none), ?_⟩
  rw [Eval.eval]
  refine (Run.on_bind_ok (Run.on_modify _ m)).trans ?_
  refine (Run.on_bind_ok (on_memberReference call env id name _)).trans ?_
  refine (Run.on_bind_ok (Run.on_modify _ _)).trans (Run.on_bind_error ?_)
  obtain ⟨shown, hshown⟩ := m.heap.inspect_plain (v := .str name) .intro
  unfold Machine.traces? at huntold
  rw [Dispatch.on_noteOrdinary]
  simp only [hshown, huntold]

namespace Machine.Keeps

variable {m : Machine} {weak : Bool} {store : ObjectId} {entries : StoreEntries}

/-- The reference of `key :: store` is made as strict as the program is. -/
theorem on_chainReference (hs : m.Keeps weak store entries) {call : Caller} {env key : Value}
    (hkey : key.isNullish = false) :
    on (Eval.chainReference (Eval.eval call env (operand key))
        (Eval.eval call env (operand (.object store)))) m
      = (.ok (storeReference key store m.strict),
        { m with current := some (operand (.object store)) }) := by
  rw [Eval.chainReference, Run.on_bind_ok (on_operand ..), Run.on_bind_ok (on_operand ..)]
  exact (hs.visit (some (operand (.object store))) m.trace).on_chain hkey m.strict

end Machine.Keeps

namespace Machine.Offers

variable {m : Machine} {weak : Bool} {store : ObjectId} {entries : StoreEntries} {call : Caller}
  {env : Value}

/-- A plain key can always be shown in a note. -/
theorem noteOrdinary (hs : m.Offers weak store entries) (word : String) (key : Value)
    (hkey : key.Plain) :
    ∃ trace, on (Dispatch.noteOrdinary word key) m = (.ok (), { m with trace }) := by
  obtain ⟨shown, hshown⟩ := m.heap.inspect_plain hkey
  have hinspect : on (Run.inspect key) m = (.ok shown, m) := by
    rw [Run.inspect, Run.on_bind, Run.on_heap]
    simp only [hshown]
    rfl
  rw [Dispatch.noteOrdinary, Run.on_bind_ok hinspect]
  exact hs.note _ rfl

/-- The host looks after none of the names under which the store is used. -/
theorem isForeign_eq (hs : m.Offers weak store entries) {name : String} (hname : name ∈ surfaceNames) :
    m.heap.isForeign .get (.object store) name = false := by
  have hnames : ∀ name ∈ surfaceNames, Native.isReserved name = false
      ∧ ["_data", "_abc_impl"].contains name = false
      ∧ ["_data", "_entry", "_ref"].contains name = false := by decide
  obtain ⟨hreserved, hstore, hweak⟩ := hnames name hname
  simp only [Heap.isForeign, hreserved, hs.object, Option.map_some, Option.getD_some, Bool.false_or]
  cases weak with
  | false => exact hstore
  | true => exact hweak

/-- An ordinary slot of the store is its attribute. -/
theorem ordinaryGet (hs : m.Offers weak store entries) {name : String} (hname : name ∈ surfaceNames)
    (this : Value) :
    on (Ordinary.get call (.object store) (.str name) this) m
      = on (do return (← Attribute.get (.object store) name).getD .undefined) m := by
  have hown := hs.isForeign_eq hname
  rw [Ordinary.get, Run.on_bind, Run.on_heap]
  simp only [Heap.objectOf?, hs.object, hown]
  cases weak <;> rfl

/-- A member of the store is read as its attribute. -/
theorem member (hs : m.Offers weak store entries) {name : String} (hname : name ∈ surfaceNames)
    {Q : Value → Machine → Prop}
    (hget : ∀ m' : Machine, m'.Offers weak store entries → m'.heap = m.heap →
      Yields (Attribute.get (.object store) name) m' fun found m'' => Q (found.getD .undefined) m'') :
    Yields (Eval.eval call env (.member (operand (.object store)) (.str name) none)) m Q := by
  rw [Eval.eval]
  refine .after (Run.on_modify _ m) ?_
  refine .after (on_memberReference call env store name _) (.after (Run.on_modify _ _) ?_)
  obtain ⟨trace, htrace⟩ := (hs.visit (some (.member (operand (.object store)) (.str name) none))
    m.trace).noteOrdinary "read" (.str name) .intro
  refine .after htrace ?_
  obtain ⟨found, m', hfound, hq⟩ := hget _ (hs.visit _ trace) rfl
  refine ⟨found.getD .undefined, m', ?_, hq⟩
  exact ((hs.visit _ trace).ordinaryGet hname (.object store)).trans (Run.on_bind_ok hfound)

/-- A method that is named in a program is that method of the store. -/
theorem methodMember (hs : m.Offers weak store entries) (operation : StoreOperation)
    (hop : weak = true → operation ∈ StoreOperation.weak) :
    Yields (Eval.eval call env (.member (operand (.object store)) (.str operation.name) none)) m
      fun f m' => m'.OffersMade m.heap weak store entries operation
        ∧ ∃ id, f = .object id ∧ m'.Shows id store operation := by
  have hname : operation.name ∈ surfaceNames := by cases operation <;> decide
  refine hs.member hname fun m' hs' hheap => (hs'.method operation hop).mono ?_
  rintro _ m'' ⟨hs'', id, rfl, hid⟩
  rw [hheap] at hs''
  exact ⟨hs'', id, rfl, hid⟩

/-- A call of a method in a program is a call of that method. -/
theorem methodCall (hs : m.Offers weak store entries) (operation : StoreOperation)
    (hop : weak = true → operation ∈ StoreOperation.weak) (arguments : List Value) (depth : Nat) :
    Leads (Eval.eval (ChainScript.invoke (depth + 1)) env
        (.call (.member (operand (.object store)) (.str operation.name) none)
          (arguments.map operand) none)) m
      (Store.callMethod store operation arguments)
      fun m' => m'.OffersMade m.heap weak store entries operation := by
  rw [Eval.eval]
  refine .after (Run.on_modify _ m) (((hs.visit _ m.trace).methodMember operation hop).leads ?_)
  rintro _ m₁ ⟨hs₁, id, rfl, hid⟩
  obtain ⟨current, hargs⟩ := on_operands (ChainScript.invoke (depth + 1)) env arguments m₁
  refine .after hargs (.after (Run.on_heap _) ?_)
  -- The method was made for this call, so nothing on it hides its name from the note.
  have hcallable : m₁.heap.isCallable (.object id) = true := by
    simp [Heap.isCallable, hid.object]
  have hshown : m₁.heap.shownName? (.object id) = some (.str operation.name) := by
    simp [Heap.shownName?, hid.bare, Heap.objectOf?, hid.object, Method.name, Table.find?,
      Table.empty]
  simp only [hcallable, if_true, hshown]
  obtain ⟨trace, htrace⟩ := (hs₁.offers.visit current m₁.trace).note (do
    let name ← Run.text (.str operation.name)
    return ["call", name, toString arguments.length]) rfl
  refine .after htrace ⟨_, ⟨hs₁.offers.visit current trace, hs₁.heap⟩, ?_⟩
  have hid' : Machine.Shows { m₁ with current, trace } id store operation := ⟨hid.object, hid.bare⟩
  exact hid'.on_invoke hs₁.offers.object arguments depth

/-- The size of the store is the number of its entries. -/
theorem sizeMember (hs : m.Offers false store entries) :
    Yields (Eval.eval call env (.member (operand (.object store)) (.str "size") none)) m
      fun answer m' => answer = .int entries.pairs.length
        ∧ m'.OffersPairs false store entries.pairs := by
  refine hs.member (by decide) fun m' hs' _ => ?_
  refine ⟨some (.int (Table.size entries)), m', ?_, ?_, entries, hs', rfl⟩
  · rw [hs'.attributeGet (by decide)]
    rfl
  · rw [StoreEntries.length_pairs]
    rfl

end Machine.Offers

/-- A null or undefined left operand is refused after both operands were evaluated. -/
theorem on_chainReference_nullish {call : Caller} {env : Value} (m : Machine) (store : ObjectId)
    {key : Value} (hkey : key.isNullish = true) :
    on (Eval.chainReference (Eval.eval call env (operand key))
        (Eval.eval call env (operand (.object store)))) m
      = (.error (.fault (.notBase key)),
        { m with current := some (operand (.object store)) }) := by
  rw [Eval.chainReference, Run.on_bind_ok (on_operand ..), Run.on_bind_ok (on_operand ..)]
  exact on_chain_nullish _ hkey (.object store) m.strict

/-! ## Sequences of uses -/

/-- One use of a store by a program: a virtual read, write or delete under a key, a call of a
method, or a look at the size. -/
inductive StoreUse where
  | read (key : Value)
  | write (key value : Value)
  | remove (key : Value)
  | call (c : StoreCall)
  | size

namespace StoreUse

/-- The program that uses a store in this way. -/
def node (store : Value) : StoreUse → Node
  | .read key => .chain (operand key) (operand store) none
  | .write key value => .assign (.chain (operand key) (operand store) none) (operand value) none
  | .remove key => .delete (.chain (operand key) (operand store) none) none
  | .call c => .call (.member (operand store) (.str c.operation.name) none)
      (c.arguments.map operand) none
  | .size => .member (operand store) (.str "size") none

/-- The left operand of the virtual access that the use is, if it is one. -/
def base? : StoreUse → Option Value
  | .read key | .write key _ | .remove key => some key
  | .call _ | .size => none

/-- The call that the use comes down to. -/
def call? : StoreUse → Option StoreCall
  | .read key => some (.get key none)
  | .write key value => some (.set key value)
  | .remove key => some (.delete key)
  | .call c => some c
  | .size => none

/-- What the use makes of the answer to that call. -/
def result (answer : Value) : StoreUse → Value
  | .write _ value => value
  | .remove _ => .bool true
  | .read _ | .call _ | .size => answer

/-- The key of the use, if there is one, is no failed number. -/
def Valid : StoreUse → Prop
  | .read key | .write key _ | .remove key => key.IsKey
  | .call c => c.Valid
  | .size => True

/-- What a finite map answers: a value, or the kind of fault that refuses a left operand which is
null or undefined. -/
def answer (store : Value) (pairs : Pairs) : StoreUse → Except FaultKind Value
  | .read key =>
    if key.isNullish then .error .invalidReferenceTarget
    else .ok ((pairs.value? key).getD .undefined)
  | .write key value => if key.isNullish then .error .invalidReferenceTarget else .ok value
  | .remove key => if key.isNullish then .error .invalidReferenceTarget else .ok (.bool true)
  | .call c => .ok (c.answer store pairs)
  | .size => .ok (.int pairs.length)

/-- What becomes of a finite map. -/
def next (pairs : Pairs) : StoreUse → Pairs
  | .write key value => if key.isNullish then pairs else pairs.enter key value
  | .remove key => if key.isNullish then pairs else pairs.remove key
  | .call c => c.next pairs
  | .read _ | .size => pairs

/-- What a host sees of the end of a run. -/
def seen? : Except Stop Value → Option (Except FaultKind Value)
  | .ok v => some (.ok v)
  | .error (.fault fault) => some (.error fault.kind)
  | .error (.outside _) => none

variable {m : Machine} {store : ObjectId} {entries : StoreEntries}

/-- From the machine, an action ends as a finite map answers, and leaves the store with the pairs
that the map has then. -/
def Answers (x : Run Value) (m : Machine) (store : ObjectId) (answer : Except FaultKind Value)
    (pairs : Pairs) : Prop :=
  seen? (on x m).1 = some answer ∧ (on x m).2.ServesPairs store pairs

variable {weak : Bool} {use : StoreUse}

/-- A null or undefined left operand is refused whatever is done with the reference. -/
theorem on_eval_of_nullish {key : Value} (hbase : use.base? = some key)
    (hkey : key.isNullish = true) (call : Caller) (env : Value) (store : ObjectId) (m : Machine) :
    on (Eval.eval call env (use.node (.object store))) m = (.error (.fault (.notBase key)),
      { m with current := some (operand (.object store)) }) := by
  have hend : ∀ (n : Node) (goOn : Reference → Run Value), on (do
      Run.visit n
      let ref ← Eval.chainReference (Eval.eval call env (operand key))
        (Eval.eval call env (operand (.object store)))
      goOn ref) m = (.error (.fault (.notBase key)),
        { m with current := some (operand (.object store)) }) := by
    intro n goOn
    refine (Run.on_bind_ok (Run.on_modify _ m)).trans ?_
    exact Run.on_bind_error (on_chainReference_nullish _ store hkey)
  cases use with
  | read key =>
    cases hbase
    rw [node, Eval.eval]
    exact hend _ _
  | write key value =>
    cases hbase
    rw [node, Eval.eval, Eval.reference]
    exact hend _ _
  | remove key =>
    cases hbase
    rw [node]
    unfold Eval.eval
    exact hend _ _
  | call c => cases hbase
  | size => cases hbase

/-- How a use is refused where it cannot be told whether accesses are traced, by what the variable
of the environment says. A left operand that is null or undefined is refused before that is asked.
-/
def untold (word : String) (use : StoreUse) : Fault :=
  match use.base? with
  | some key => if key.isNullish then .notBase key else .badFlag "VPROP_DEBUG" word
  | none => .badFlag "VPROP_DEBUG" word

/-- There a virtual access ends once its reference is made, and what is written has been evaluated.
-/
theorem on_virtual_untold (hs : m.Keeps weak store entries) (huntold : m.traces? = none) {key : Value}
    (hbase : use.base? = some key) (hkey : key.isNullish = false) (call : Caller) (env : Value) :
    ∃ current, on (Eval.eval call env (use.node (.object store))) m
      = (.error (.fault (.badFlag "VPROP_DEBUG" m.debugVariable)), { m with current }) := by
  have hs' := fun current => hs.visit current m.trace
  refine ⟨some (use.node (.object store)), ?_⟩
  cases use with
  | read key =>
    cases hbase
    rw [node, Eval.eval]
    refine (Run.on_bind_ok (Run.on_modify _ m)).trans ?_
    refine (Run.on_bind_ok ((hs' _).on_chainReference hkey)).trans ?_
    refine (Run.on_bind_ok (Run.on_modify _ _)).trans ?_
    exact (hs' (some _)).read_untold huntold ..
  | write key value =>
    cases hbase
    rw [node, Eval.eval, Eval.reference]
    refine (Run.on_bind_ok (Run.on_modify _ m)).trans ?_
    refine (Run.on_bind_ok ((hs' _).on_chainReference hkey)).trans ?_
    refine (Run.on_bind_ok (on_operand ..)).trans ?_
    refine (Run.on_bind_ok (Run.on_modify _ _)).trans (Run.on_bind_error ?_)
    exact (hs' (some _)).write_untold huntold ..
  | remove key =>
    cases hbase
    rw [node]
    unfold Eval.eval
    refine (Run.on_bind_ok (Run.on_modify _ m)).trans ?_
    refine (Run.on_bind_ok ((hs' _).on_chainReference hkey)).trans ?_
    refine (Run.on_bind_ok (Run.on_modify _ _)).trans (Run.on_bind_error ?_)
    exact (hs' (some _)).delete_untold huntold ..
  | call | size => cases hbase

/-- Nor does any other use come as far as the store. -/
theorem on_eval_untold (hs : m.Keeps weak store entries) (huntold : m.traces? = none)
    (use : StoreUse) (call : Caller) (env : Value) :
    ∃ current, on (Eval.eval call env (use.node (.object store))) m
      = (.error (.fault (use.untold m.debugVariable)), { m with current }) := by
  cases hbase : use.base? with
  | some key =>
    cases hkey : key.isNullish with
    | true =>
      refine ⟨some (operand (.object store)), ?_⟩
      rw [on_eval_of_nullish hbase hkey]
      simp only [untold, hbase, hkey, if_true]
    | false =>
      obtain ⟨current, hend⟩ := on_virtual_untold hs huntold hbase hkey call env
      refine ⟨current, hend.trans ?_⟩
      simp only [untold, hbase, hkey, Bool.false_eq_true, if_false]
  | none =>
    -- A call of a method reads it first, as a look at the size reads that.
    cases use with
    | call c =>
      obtain ⟨current, hcallee⟩ := on_member_untold
        (m := { m with current := some (node (.object store) (.call c)) }) huntold call env store
        c.operation.name
      refine ⟨current, ?_⟩
      rw [node, Eval.eval]
      exact (Run.on_bind_ok (Run.on_modify _ m)).trans (Run.on_bind_error hcallee)
    | size => exact on_member_untold huntold call env store "size"
    | _ => cases hbase

/-- A use goes on as the call that it comes down to. -/
theorem leads_use (hs : m.Offers weak store entries) {c : StoreCall} (hc : use.call? = some c)
    (hop : weak = true → c.operation ∈ StoreOperation.weak)
    (hbase : ∀ key, use.base? = some key → key.isNullish = false) (depth : Nat) (env : Value) :
    Leads (Eval.eval (invoke (depth + 2)) env (use.node (.object store))) m
      (do return use.result (← Store.callMethod store c.operation c.arguments))
      fun m' => m'.OffersMade m.heap weak store entries c.operation := by
  have hs' := fun current => hs.visit current m.trace
  cases use with
  | read key =>
    cases hc
    rw [node, Eval.eval]
    refine .after (Run.on_modify _ m) ?_
    refine .after ((hs' _).on_chainReference (hbase key rfl)) (.after (Run.on_modify _ _) ?_)
    refine ((hs' _).read key _ depth).of_eq ?_
    exact (bind_pure _).symm
  | write key value =>
    cases hc
    rw [node, Eval.eval, Eval.reference]
    refine .after (Run.on_modify _ m) ?_
    refine .after ((hs' _).on_chainReference (hbase key rfl)) ?_
    refine .after (on_operand ..) (.after (Run.on_modify _ _) ?_)
    refine (((hs' _).write key _ value depth).bind (f := fun _ => pure value)).of_eq ?_
    simp only [bind_assoc, pure_bind]
    rfl
  | remove key =>
    cases hc
    rw [node]
    unfold Eval.eval
    refine .after (Run.on_modify _ m) ?_
    refine .after ((hs' _).on_chainReference (hbase key rfl)) (.after (Run.on_modify _ _) ?_)
    refine (((hs' _).delete key _ depth).bind (f := fun gone => pure (Value.bool gone))).of_eq ?_
    simp only [bind_assoc, pure_bind]
    rfl
  | call c =>
    cases hc
    refine (hs.methodCall c.operation hop c.arguments (depth + 1)).of_eq ?_
    exact (bind_pure _).symm
  | size => cases hc

/-- The finite map answers a use from its answer to that call. -/
theorem answer_of_call {c : StoreCall} (hc : use.call? = some c)
    (hbase : ∀ key, use.base? = some key → key.isNullish = false) (store : Value) (pairs : Pairs) :
    use.answer store pairs = .ok (use.result (c.answer store pairs))
      ∧ use.next pairs = c.next pairs := by
  cases use with
  | call c => cases hc; exact ⟨rfl, rfl⟩
  | size => cases hc
  | _ =>
    cases hc
    simp [answer, next, hbase _ rfl, result, StoreCall.answer, StoreCall.next]

/-- A use of a store is answered as the finite map answers. Of a weak store that is so for the keys
that it takes. -/
theorem yields_use (hs : m.Offers weak store entries) {c : StoreCall} (hc : use.call? = some c)
    (hvalid : c.Valid) (hop : weak = true → c.operation ∈ StoreOperation.weak)
    (htaken : weak = true → ∀ key, c.key? = some key → m.heap.isWeakKey key = true)
    (hbase : ∀ key, use.base? = some key → key.isNullish = false) (depth : Nat) (env : Value) :
    Yields (Eval.eval (invoke (depth + 2)) env (use.node (.object store))) m fun v m' =>
      use.answer (.object store) entries.pairs = .ok v
        ∧ m'.OffersPairs weak store (use.next entries.pairs) := by
  obtain ⟨hanswer, hnext⟩ := answer_of_call hc hbase (.object store) entries.pairs
  refine (leads_use hs hc hop hbase depth env).yields fun m' hm' => ?_
  have hkey : weak = true → ∀ key, c.key? = some key → m'.heap.isWeakKey key = true := by
    intro hweak key hk
    rw [hm'.heap]
    exact Heap.isWeakKey_alloc _ (htaken hweak key hk)
  refine (hm'.offers.callMethod c hvalid hkey).bind ?_
  rintro _ m'' ⟨rfl, hm''⟩
  exact .pure ⟨hanswer, by rw [hnext]; exact hm''⟩

/-- What yields an answer, and leaves the store with pairs, answers so. -/
theorem answers_of_yields {x : Run Value} {answer : Except FaultKind Value} {pairs : Pairs}
    (hx : Yields x m fun v m' => answer = .ok v ∧ m'.OffersPairs false store pairs) :
    Answers x m store answer pairs := by
  obtain ⟨v, m', hv, rfl, entries', hs', hpairs⟩ := hx
  rw [Answers, hv]
  exact ⟨rfl, entries', Machine.offers_false_iff.mp hs', hpairs⟩

/-- One use answers as the finite map does, and leaves what the map becomes. -/
theorem answers_use (hs : m.Serves store entries) (use : StoreUse) (huse : use.Valid)
    (depth : Nat) (env : Value) :
    Answers (Eval.eval (invoke (depth + 2)) env (use.node (.object store))) m store
      (use.answer (.object store) entries.pairs) (use.next entries.pairs) := by
  have hoffers := Machine.offers_false_iff.mpr hs
  by_cases hbase : ∀ key, use.base? = some key → key.isNullish = false
  · cases hc : use.call? with
    | some c =>
      have hvalid : c.Valid := by cases use <;> cases hc <;> exact huse
      exact answers_of_yields (yields_use hoffers hc hvalid nofun nofun hbase depth env)
    | none =>
      -- Only a look at the size is no call.
      cases use with
      | size =>
        refine answers_of_yields (hoffers.sizeMember.mono ?_)
        rintro _ _ ⟨rfl, hq⟩
        exact ⟨rfl, hq⟩
      | _ => cases hc
  · simp only [not_forall, Bool.not_eq_false] at hbase
    obtain ⟨key, hbase, hkey⟩ := hbase
    have hstay : use.answer (.object store) entries.pairs = .error .invalidReferenceTarget
        ∧ use.next entries.pairs = entries.pairs := by
      cases use with
      | call | size => cases hbase
      | _ => cases hbase; exact ⟨if_pos hkey, by simp [next, hkey]⟩
    rw [Answers, on_eval_of_nullish hbase hkey, hstay.1, hstay.2]
    exact ⟨rfl, entries, Machine.offers_false_iff.mp (hoffers.visit _ m.trace), rfl⟩

/-- The ends of uses that follow one another, and the machine that they leave. -/
def runAll (depth : Nat) (env : Value) (store : ObjectId) (m : Machine) :
    List StoreUse → List (Except Stop Value) × Machine
  | [] => ([], m)
  | use :: uses =>
    let (stop, m') := on (Eval.eval (invoke (depth + 2)) env (use.node (.object store))) m
    let (stops, m'') := runAll depth env store m' uses
    (stop :: stops, m'')

/-- The answers of a finite map to uses that follow one another, and what becomes of it. -/
def answerAll (store : Value) (pairs : Pairs) :
    List StoreUse → List (Except FaultKind Value) × Pairs
  | [] => ([], pairs)
  | use :: uses =>
    let (answers, pairs') := answerAll store (use.next pairs) uses
    (use.answer store pairs :: answers, pairs')

/-- Uses that follow one another answer as the finite map does, and leave what the map becomes. -/
theorem runAll_of_serves (depth : Nat) (env : Value) (hs : m.Serves store entries)
    (uses : List StoreUse) (huses : ∀ use ∈ uses, use.Valid) :
    (runAll depth env store m uses).1.map seen?
        = (answerAll (.object store) entries.pairs uses).1.map some
      ∧ ∃ entries' : StoreEntries,
        (runAll depth env store m uses).2.heap.object? store = some (.store entries')
          ∧ entries'.pairs = (answerAll (.object store) entries.pairs uses).2 := by
  -- The induction is on the uses: the machine that one use leaves serves the next.
  induction uses generalizing m entries with
  | nil => exact ⟨rfl, entries, hs.object, rfl⟩
  | cons use uses ih =>
    obtain ⟨hanswer, entries₁, hs₁, hpairs⟩ :=
      answers_use hs use (huses use List.mem_cons_self) depth env
    obtain ⟨hanswers, entries', hobject, hend⟩ :=
      ih hs₁ fun use huse => huses use (List.mem_cons_of_mem _ huse)
    rw [hpairs] at hanswers hend
    refine ⟨?_, entries', hobject, hend⟩
    simp only [runAll, answerAll, List.map_cons]
    rw [hanswer, hanswers]

/-- Where it cannot be told whether accesses are traced, every one of them is refused, and nothing
has changed after all of them. -/
theorem runAll_untold (depth : Nat) (env : Value) (hs : m.Keeps weak store entries)
    (huntold : m.traces? = none) (uses : List StoreUse) :
    ∃ current, runAll depth env store m uses
      = (uses.map fun use => .error (.fault (use.untold m.debugVariable)), { m with current }) := by
  induction uses generalizing m with
  | nil => exact ⟨m.current, rfl⟩
  | cons use uses ih =>
    obtain ⟨before, hend⟩ := on_eval_untold hs huntold use (invoke (depth + 2)) env
    obtain ⟨current, hrest⟩ := ih (hs.visit before m.trace) huntold
    refine ⟨current, ?_⟩
    simp only [runAll, hend, List.map_cons]
    rw [hrest]

/-- A store is a finite map in order of entry for the programs that use it. Whatever sequence of
virtual accesses and method calls they make, the answers are those of the map, and the store holds
its pairs, in its order, in the end. Where it cannot be told whether accesses are traced, all of
them are refused, and nothing has changed in the end but what node was evaluated last. -/
theorem store_uses_answer_as_map (depth : Nat) (env : Value) {m : Machine} {store : ObjectId}
    {entries : StoreEntries} (hs : m.Keeps false store entries) (uses : List StoreUse)
    (huses : ∀ use ∈ uses, use.Valid) :
    (m.traces?.isSome = true →
      (runAll depth env store m uses).1.map seen?
          = (answerAll (.object store) entries.pairs uses).1.map some
        ∧ ∃ entries' : StoreEntries,
          (runAll depth env store m uses).2.heap.object? store = some (.store entries')
            ∧ entries'.pairs = (answerAll (.object store) entries.pairs uses).2)
    ∧ (m.traces? = none → ∃ current, runAll depth env store m uses
      = (uses.map fun use => .error (.fault (use.untold m.debugVariable)), { m with current })) :=
  ⟨fun hreadable => runAll_of_serves depth env (Machine.offers_false_iff.mp ⟨hs, hreadable⟩) uses huses,
    fun huntold => runAll_untold depth env hs huntold uses⟩

/-- A machine with an empty store and the built-in handlers. -/
def withStore : Machine :=
  { Machine.blank with
    heap := (Machine.blank.heap.alloc (.store .empty)).2, registry := .standard }

/-- The machine with a store keeps an empty one. -/
theorem keeps_withStore : withStore.Keeps false 4 .empty where
  object := rfl
  keyed := .empty
  taken := nofun
  bare := by decide
  handlers := by decide +kernel

/-- It serves accesses through the store. -/
theorem serves_withStore : withStore.Serves 4 .empty :=
  Machine.offers_false_iff.mp ⟨keeps_withStore, rfl⟩

/-- Uses that tell `1` from `true` and do not tell the zeros apart. -/
def mixedUses : List StoreUse :=
  [.write (.int 1) .null, .read (.bool true), .call (.has (.int 1)),
    .write (.float (.zero false)) (.str "zero"), .call (.get (.float (.zero true)) none),
    .write .null (.int 2), .remove (.object 4), .call (.delete (.int 1)), .size]

/-- The empty store answers these uses as the empty map does. -/
theorem mixed_uses_answer_as_map :
    withStore.Keeps false 4 .empty ∧ (∀ use ∈ mixedUses, use.Valid)
      ∧ (runAll 0 .null 4 withStore mixedUses).1.map seen?
        = (answerAll (.object 4) [] mixedUses).1.map some := by
  have hvalid : ∀ use ∈ mixedUses, use.Valid := by
    simp [mixedUses, Valid, StoreCall.Valid, Value.IsKey, Binary64.zero]
  obtain ⟨htold, -⟩ := store_uses_answer_as_map 0 .null keeps_withStore mixedUses hvalid
  exact ⟨keeps_withStore, hvalid, (htold rfl).1⟩

/-- Where the variable that says whether accesses are traced is no flag, a read is not answered as
the map answers it. -/
theorem misnamed_flag_stops_store :
    let m := { withStore with debug := none, debugVariable := "maybe" }
    m.Keeps false 4 .empty
      ∧ (answerAll (.object 4) [] [.read (.int 1)]).1 = [.ok .undefined]
      ∧ (runAll 0 .null 4 m [.read (.int 1)]).1
        = [.error (.fault (.badFlag "VPROP_DEBUG" "maybe"))] := by
  intro m
  have hs : m.Keeps false 4 .empty :=
    ⟨rfl, .empty, nofun, keeps_withStore.bare, keeps_withStore.handlers⟩
  have huntold : m.traces? = none := by decide +kernel
  obtain ⟨current, hends⟩ := runAll_untold 0 .null hs huntold [.read (.int 1)]
  exact ⟨hs, rfl, by rw [hends]; rfl⟩

end StoreUse

end ChainScript
