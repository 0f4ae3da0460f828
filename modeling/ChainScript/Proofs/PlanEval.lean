import ChainScript.Proofs.Plan

/-!
# Following a plan is evaluating

Each step does what the evaluator does at the same point, so the steps of a node, followed from any
stack, come to the value of the node on top of it. The proof follows the recursion of the evaluator.
What fails puts the strictness back on its way out, on both sides: the steps do so at the one that
fails, and the evaluator at the end of each program around it.
-/

namespace ChainScript

open Run (on Quiet)

/-! ## Ways out -/

/-- Actions that do the same on every machine are equal. -/
theorem Run.eq_of_on {α : Type} {x y : Run α} (h : ∀ m, on x m = on y m) : x = y := funext h

namespace Stack

variable {α β : Type}

/-- An action that fails within programs leaves the strictness that the outermost one found. -/
theorem on_unwinding (st : Stack) (x : Run α) (m : Machine) :
    on (st.unwinding x) m = match on x m with
      | (.ok a, m') => (.ok a, m')
      | (.error e, m') => (.error e, m'.strictly (st.outset?.getD m'.strict)) := by
  rw [unwinding, Run.on_tryCatch]
  rcases on x m with ⟨_ | _, _⟩ <;> rfl

/-- What cannot fail has nothing to put back. -/
theorem unwinding_of_ok (st : Stack) {x : Run α} (hx : ∀ m, ∃ a m', on x m = (.ok a, m')) :
    st.unwinding x = x := by
  refine Run.eq_of_on fun m => ?_
  obtain ⟨a, m', ha⟩ := hx m
  rw [on_unwinding, ha]

/-- Giving an answer needs no unwinding. -/
@[simp] theorem unwinding_pure (st : Stack) (a : α) : st.unwinding (pure a) = pure a :=
  unwinding_of_ok st fun m => ⟨a, m, rfl⟩

/-- Looking at the machine needs no unwinding. -/
@[simp] theorem unwinding_get (st : Stack) : st.unwinding get = get :=
  unwinding_of_ok st fun m => ⟨m, m, rfl⟩

/-- Looking at the heap needs no unwinding. -/
@[simp] theorem unwinding_heap (st : Stack) : st.unwinding Run.heap = Run.heap :=
  unwinding_of_ok st fun m => ⟨m.heap, m, rfl⟩

/-- Visiting a node needs no unwinding. -/
@[simp] theorem unwinding_visit (st : Stack) (n : Node) : st.unwinding (Run.visit n) = Run.visit n :=
  unwinding_of_ok st fun _ => ⟨(), _, rfl⟩

/-- Of actions in a row each has its way out. -/
theorem unwinding_bind (st : Stack) (x : Run α) (f : α → Run β) :
    st.unwinding (x >>= f) = st.unwinding x >>= fun a => st.unwinding (f a) := by
  refine Run.eq_of_on fun m => ?_
  rw [on_unwinding, Run.on_bind, Run.on_bind, on_unwinding]
  rcases on x m with ⟨e | a, m'⟩
  · rfl
  · exact (on_unwinding st (f a) m').symm

/-- What is on the stack besides what programs found does not matter. -/
@[simp] theorem unwinding_value (v : Value) (st : Stack) :
    unwinding (α := α) (.value v :: st) = st.unwinding := rfl

/-- A place on the stack does not matter. -/
@[simp] theorem unwinding_place (ref : Reference) (st : Stack) :
    unwinding (α := α) (.place ref :: st) = st.unwinding := rfl

/-- Arguments on the stack do not matter. -/
@[simp] theorem unwinding_arguments (vs : List Value) (st : Stack) :
    unwinding (α := α) (.arguments vs :: st) = st.unwinding := rfl

/-- A program that is begun, run and left is run with a strictness of its own. -/
theorem unwinding_withStrict (strict : Bool) (x : Run Value) (st : Stack) :
    (do
      let m ← get
      modify fun m : Machine => m.strictly (m.strict || strict)
      let v ← unwinding (.found m.strict :: st) x
      modify fun m' : Machine => m'.strictly m.strict
      return Item.value v :: st)
      = do return .value (← st.unwinding (Run.withStrict strict x)) :: st := by
  refine Run.eq_of_on fun m => ?_
  simp only [Run.on_bind, Run.on_get, Run.on_modify, on_unwinding, Run.on_withStrict]
  rcases on x (m.strictly (m.strict || strict)) with ⟨e | v, m'⟩
  · simp [outset?]
  · rfl

/-- With no program around there is nothing to put back. -/
@[simp] theorem unwinding_nil (x : Run α) : unwinding [] x = x := by
  refine Run.eq_of_on fun m => ?_
  rw [on_unwinding]
  rcases on x m with ⟨_ | _, _⟩ <;> rfl

end Stack

/-- Behind a veil a failure finds the same way out. -/
theorem Veil.Alike.unwinding {α : Type} {V : Veil} {x y : Run α} (hxy : V.Alike x y) (st : Stack) :
    V.Alike (st.unwinding x) (st.unwinding y) := by
  intro m k hk
  obtain ⟨k', hk', hy⟩ := hxy m k hk
  refine ⟨k', ?_, ?_⟩
  · rw [Stack.on_unwinding]
    revert hk'
    rcases on x m with ⟨_ | _, _⟩ <;> exact id
  · rw [Stack.on_unwinding, Stack.on_unwinding, hy]
    rcases on x m with ⟨_ | _, _⟩ <;> rfl

/-! ## Steps -/

/-- Reading a binding makes no call. -/
theorem Dispatch.read_binding (call call' : Caller) {ref : Reference} {name : Value}
    (hname : ref.name = .binding name) : read call ref = read call' ref := by
  unfold read
  rw [hname]

/-- Reading a binding is quiet. -/
theorem Dispatch.quiet_read_binding (call : Caller) {ref : Reference} {name : Value}
    (hname : ref.name = .binding name) : Quiet (read call ref) := by
  unfold read
  rw [hname]
  dsimp only
  split
  · exact .fail _
  · exact quiet_noteBinding.bind fun _ => Environment.quiet_lookup _ _

/-- The place of a super member is found by reading `this`, which is a binding. -/
theorem Eval.superReference_eq (call call' : Caller) (env name : Value) (loc : Option Location) :
    superReference call env name loc = superReference call' env name loc := by
  unfold superReference Dispatch.binding
  simp only [bind_assoc, pure_bind]
  refine bind_congr fun m => bind_congr fun owner => ?_
  rw [Dispatch.read_binding call call' rfl]

/-- The reference to a name is made without a call. -/
theorem Eval.quiet_bindingReference (env name : Value) : Quiet (bindingReference env name) :=
  .get (fun _ => Dispatch.quiet_binding _ _ _) fun _ _ => rfl

/-- So is the reference to a member of the parent. -/
theorem Eval.quiet_superReference (call : Caller) (env name : Value) (loc : Option Location) :
    Quiet (superReference call env name loc) := by
  unfold superReference Dispatch.binding
  refine .get (fun m => ?_) fun _ _ => rfl
  simp only [bind_assoc, pure_bind]
  refine (Environment.quiet_owner _ _).bind fun owner => ?_
  refine (Dispatch.quiet_read_binding call rfl).bind fun this => .heap fun h => ?_
  split
  · exact .get (fun _ => Reference.quiet_property _ _ _ _ _) fun _ _ => rfl
  · exact .fail _

namespace Act

/-- Up to its call a step is quiet. -/
theorem quiet_prepare (env : Value) (act : Act) (st : Stack) : Quiet (act.prepare env st) := by
  unfold prepare
  -- One case for each act that finds what it needs on the stack, and the last for those that do
  -- not.
  split
  · exact .pure _
  · exact .pure _
  · exact (Node.quiet_settleAll _).bind fun settled =>
      (Quiet.mapM Run.quiet_ofNode settled).bind fun _ => (Quiet.alloc _).bind fun _ => .pure _
  · exact (Eval.quiet_bindingReference _ _).bind fun _ => .pure _
  · exact (Ordinary.quiet_toObject _).bind fun _ => .pure _
  · exact .get (fun _ => (Reference.quiet_property _ _ _ _ _).bind fun _ => .pure _) fun _ _ => rfl
  · exact (Ordinary.quiet_propertyKey _).bind fun key =>
      .get (fun _ => (Reference.quiet_property _ _ _ _ _).bind fun _ => .pure _) fun _ _ => rfl
  · exact .get (fun _ => (Dispatch.quiet_chain _ _ _).bind fun _ => .pure _) fun _ _ => rfl
  · exact (Eval.quiet_superReference _ _ _ _).bind fun _ => .pure _
  · exact (Dispatch.quiet_pendingRead _).bind fun _ => .pure _
  · exact (Dispatch.quiet_pendingWrite _ _).bind fun _ => .pure _
  · exact (Dispatch.quiet_pendingDelete _).bind fun _ => .pure _
  · exact .pure _
  · exact .pure _
  · exact .pure _
  · refine .heap fun h => ?_
    split
    · refine (Quiet.note ?_).bind fun _ => .pure _
      exact (Quiet.looks (.text _)).bind fun _ => .pure _
    · exact .fail _
  · exact (Quiet.alloc _).bind fun _ => .pure _
  · refine (Ordinary.quiet_propertyKey _).bind fun key => (Quiet.keyOf _).bind fun k => ?_
    dsimp only
    split
    · exact (Ordinary.quiet_writeOwn _ _ _ _).bind fun _ => .pure _
    · exact .pure _
  · exact .get (fun _ => (Quiet.modify fun _ _ => rfl).bind fun _ => .pure _) fun _ _ => rfl
  · exact .pure _
  · exact (Quiet.modify fun _ _ => rfl).bind fun _ => .pure _
  · exact .fail _
  · exact .failNative _

end Act

namespace Step

variable {call : Caller} {env : Value}

/-- A step is taken as it stands, with its way out. -/
theorem run_does (n : Node) (act : Act) (st : Stack) :
    (n.does act).run call env st
      = st.unwinding ((n.does act).prepare env st >>= Pending.resolve call) := rfl

/-! ## What each step does -/

section

variable (n : Node) (st : Stack)

/-- Entering makes the node the current one. -/
theorem run_enter : (n.does .enter).run call env st = do Run.visit n; return st := by
  rw [run_does, prepare]
  simp only [Node.does, Act.visits, if_true, bind_assoc, Stack.unwinding_bind,
    Stack.unwinding_visit]
  exact bind_congr fun _ => Stack.unwinding_pure st st

/-- A step that makes no call comes to what it comes to by itself. -/
theorem run_alone {act : Act} {x : Run Stack} {st : Stack} (hvisits : act.visits = false)
    (hx : act.prepare env st = do return .done (← x)) :
    (n.does act).run call env st = st.unwinding x := by
  rw [run_does, prepare]
  simp only [Node.does, hvisits, Bool.false_eq_true, if_false, hx]
  exact congrArg st.unwinding (Pending.bind_resolve_done x)

/-- A value that is there is pushed. -/
theorem run_push (v : Value) : (n.does (.push v)).run call env st = return .value v :: st :=
  (run_alone n rfl rfl).trans (Stack.unwinding_pure _ _)

/-- A list is made. -/
theorem run_list (items : List Node) :
    (n.does (.list items)).run call env st = st.unwinding do
      let settled ← Node.settleAll items
      return .value (← Run.allocList (← settled.mapM Run.ofNode)) :: st :=
  run_alone n rfl (by simp only [bind_assoc, pure_bind]; rfl)

/-- The place of an identifier is found. -/
theorem run_binding (name : Value) :
    (n.does (.binding name)).run call env st
      = st.unwinding do return .place (← Eval.bindingReference env name) :: st :=
  run_alone n rfl (by simp only [bind_assoc, pure_bind]; rfl)

/-- A base is looked at. -/
theorem run_base (v : Value) :
    (n.does .base).run call env (.value v :: st)
      = st.unwinding do return .value (← Ordinary.toObject v) :: st :=
  run_alone n rfl (by simp only [bind_assoc, pure_bind]; rfl)

/-- The place of a member is found. -/
theorem run_member (v name : Value) :
    (n.does (.member name)).run call env (.value v :: st) = st.unwinding do
      let ref ← Reference.property v name (← get).strict .undefined false
      return .place ref :: st :=
  run_alone n rfl (by simp only [bind_assoc, pure_bind]; rfl)

/-- The place of an indexed access is found. -/
theorem run_index (v key : Value) :
    (n.does .index).run call env (.value key :: .value v :: st) = st.unwinding do
      let key ← Ordinary.propertyKey key
      let ref ← Reference.property v key (← get).strict .undefined false
      return .place ref :: st :=
  run_alone n rfl (by simp only [bind_assoc, pure_bind]; rfl)

/-- The place of a chain is found. -/
theorem run_chain (v resolver : Value) :
    (n.does .chain).run call env (.value resolver :: .value v :: st)
      = st.unwinding do return .place (← Dispatch.chain v resolver (← get).strict) :: st :=
  run_alone n rfl (by simp only [bind_assoc, pure_bind]; rfl)

/-- The place of a member of the parent of `this` is found. -/
theorem run_superMember (name : Value) (loc : Option Location) :
    (n.does (.superMember name loc)).run call env st
      = st.unwinding do return .place (← Eval.superReference call env name loc) :: st := by
  rw [Eval.superReference_eq call Act.uncalled]
  exact run_alone n rfl (by simp only [bind_assoc, pure_bind]; rfl)

/-- What is no place is deleted. -/
theorem run_succeed (v : Value) :
    (n.does .succeed).run call env (.value v :: st) = return .value (.bool true) :: st :=
  (run_alone n rfl rfl).trans (Stack.unwinding_pure _ _)

/-- The arguments of a call are begun. -/
theorem run_arguments : (n.does .arguments).run call env st = return .arguments [] :: st :=
  (run_alone n rfl rfl).trans (Stack.unwinding_pure _ _)

/-- An argument is added to them. -/
theorem run_argument (v : Value) (vs : List Value) :
    (n.does .argument).run call env (.value v :: .arguments vs :: st)
      = return .arguments (vs ++ [v]) :: st :=
  (run_alone n rfl rfl).trans (Stack.unwinding_pure _ _)

/-- The record of an object literal is made. -/
theorem run_record :
    (n.does .record).run call env st
      = st.unwinding do return .value (← Run.alloc (.record .plain .empty none false)) :: st :=
  run_alone n rfl (by simp only [bind_assoc, pure_bind]; rfl)

/-- A program is begun. -/
theorem run_begin (strict : Bool) :
    (n.does (.begin strict)).run call env st = do
      let m ← get
      modify fun m => m.strictly (m.strict || strict)
      return .found m.strict :: st := by
  refine (run_alone n rfl ?_).trans (Stack.unwinding_of_ok st fun _ => ⟨_, _, rfl⟩)
  simp only [Act.prepare, bind_assoc, pure_bind]

/-- A statement is left for the next one. -/
theorem run_next (v last : Value) :
    (n.does .next).run call env (.value v :: .value last :: st) = return .value v :: st :=
  (run_alone n rfl rfl).trans (Stack.unwinding_pure _ _)

/-- A program is left. -/
theorem run_leave (v : Value) (strict : Bool) :
    (n.does .leave).run call env (.value v :: .found strict :: st) = do
      modify fun m => m.strictly strict
      return .value v :: st := by
  refine (run_alone n rfl ?_).trans (Stack.unwinding_of_ok _ fun _ => ⟨_, _, rfl⟩)
  simp only [Act.prepare, bind_assoc, pure_bind]

/-- A refusal is a fault. -/
theorem run_refuse (fault : Fault) :
    (n.does (.refuse fault)).run call env st = st.unwinding (Run.fail fault) :=
  run_alone n rfl rfl

/-- A slot of the record is filled. -/
theorem run_entry (name v target : Value) :
    (n.does (.entry name)).run call env (.value v :: .value target :: st) = st.unwinding do
      let key ← Ordinary.propertyKey name
      let k ← Run.keyOf key
      match target with
      | .object id => let _ ← Ordinary.writeOwn id k key v
      | _ => pure ()
      return .value target :: st := by
  refine run_alone n rfl ?_
  simp only [bind_assoc]
  refine bind_congr fun key => bind_congr fun k => ?_
  cases target <;> simp only [bind_assoc, pure_bind]

/-- A place is read. -/
theorem run_read (ref : Reference) :
    (n.does .read).run call env (.place ref :: st)
      = st.unwinding do return .value (← Eval.readAt call n ref) :: st := by
  rw [run_does, prepare]
  simp only [Node.does, Act.visits, if_true, bind_assoc, Eval.readAt, Dispatch.read_eq]
  refine congrArg st.unwinding (bind_congr fun _ => ?_)
  exact (Pending.bind_resolve_map call (fun v => Item.value v :: st) _).trans (bind_assoc _ _ _)

/-- A place is written. -/
theorem run_write (ref : Reference) (v : Value) :
    (n.does .write).run call env (.value v :: .place ref :: st) = st.unwinding do
      Run.visit n
      Dispatch.write call ref v
      return .value v :: st := by
  rw [run_does, prepare]
  simp only [Node.does, Act.visits, if_true, bind_assoc, Dispatch.write_eq]
  refine congrArg st.unwinding (bind_congr fun _ => ?_)
  exact (Pending.bind_resolve_map call (fun _ => Item.value v :: st) _).trans (bind_assoc _ _ _)

/-- A place is deleted. -/
theorem run_delete (ref : Reference) :
    (n.does .delete).run call env (.place ref :: st) = st.unwinding do
      Run.visit n
      return .value (.bool (← Dispatch.delete call ref)) :: st := by
  rw [run_does, prepare]
  simp only [Node.does, Act.visits, if_true, bind_assoc, Dispatch.delete_eq]
  refine congrArg st.unwinding (bind_congr fun _ => ?_)
  exact (Pending.bind_resolve_map call (fun b => Item.value (.bool b) :: st) _).trans
    (bind_assoc _ _ _)

/-- A callee is called. -/
theorem run_call (f : Value) (vs : List Value) :
    (n.does .call).run call env (.arguments vs :: .value f :: st) = st.unwinding (do
      let h ← Run.heap
      if h.isCallable f then
        Run.note (do
          let name ← Run.text ((h.shownName? f).getD (.str (h.typeName f)))
          return ["call", name, toString vs.length])
        return .value (← call f vs) :: st
      else Run.fail (.notCallable f)) := by
  rw [run_does, prepare]
  simp only [Node.does, Act.visits, Bool.false_eq_true, if_false, Act.prepare, bind_assoc]
  refine congrArg st.unwinding (bind_congr fun h => ?_)
  split
  · simp only [bind_assoc, pure_bind, Pending.resolve]
    rfl
  · rfl

end

/-! ## Places -/

/-- The steps put the value of the action on the stack, and do nothing else. -/
def Computes (call : Caller) (env : Value) (steps : List Step) (x : Run Value) : Prop :=
  ∀ st, follow call env steps st = do return .value (← st.unwinding x) :: st

/-- The steps put the reference that the action comes to on the stack, and do nothing else. -/
def Locates (call : Caller) (env : Value) (steps : List Step) (x : Run Reference) : Prop :=
  ∀ st, follow call env steps st = do return .place (← st.unwinding x) :: st

/-- The place of an identifier. -/
theorem locates_binding (n : Node) (name : Value) :
    Locates call env [n.does (.binding name)] (Eval.bindingReference env name) := by
  intro st
  simp only [follow, run_binding, Stack.unwinding_bind, Stack.unwinding_pure, bind_pure]

/-- The place of a member of the parent of `this`. -/
theorem locates_superMember (n : Node) (name : Value) (loc : Option Location) :
    Locates call env [n.does (.superMember name loc)] (Eval.superReference call env name loc) := by
  intro st
  simp only [follow, run_superMember, Stack.unwinding_bind, Stack.unwinding_pure, bind_pure]

/-- The place of a member. -/
theorem locates_toMember (n : Node) {steps : List Step} {obj : Run Value}
    (hobj : Computes call env steps obj) (name : Value) :
    Locates call env (n.toMember steps name) (Eval.memberReference obj name) := by
  intro st
  unfold Node.toMember Eval.memberReference
  simp only [follow_append, hobj st, follow, run_base, run_member, Stack.unwinding_bind,
    Stack.unwinding_get, Stack.unwinding_pure, bind_assoc, pure_bind, bind_pure]

/-- The place of an indexed access. -/
theorem locates_toIndex (n : Node) {steps keySteps : List Step} {obj key : Run Value}
    (hobj : Computes call env steps obj) (hkey : Computes call env keySteps key) :
    Locates call env (n.toIndex steps keySteps) (Eval.indexReference obj key) := by
  intro st
  unfold Node.toIndex Eval.indexReference
  simp only [follow_append, hobj st, hkey (_ :: st), follow, run_base, run_index,
    Stack.unwinding_bind, Stack.unwinding_value, Stack.unwinding_get, Stack.unwinding_pure,
    bind_assoc, pure_bind, bind_pure]

/-- The place of a chain. -/
theorem locates_toChain (n : Node) {steps resolverSteps : List Step} {obj resolver : Run Value}
    (hobj : Computes call env steps obj) (hresolver : Computes call env resolverSteps resolver) :
    Locates call env (n.toChain steps resolverSteps) (Eval.chainReference obj resolver) := by
  intro st
  unfold Node.toChain Eval.chainReference
  simp only [follow_append, hobj st, hresolver (_ :: st), follow, run_chain, Stack.unwinding_bind,
    Stack.unwinding_value, Stack.unwinding_get, Stack.unwinding_pure, bind_assoc, pure_bind,
    bind_pure]

/-- A node that is read after its place was found. -/
theorem computes_read (n : Node) {steps : List Step} {x : Run Reference}
    (hx : Locates call env steps x) :
    Computes call env ([n.does .enter] ++ steps ++ [n.does .read]) (do
      Run.visit n
      let ref ← x
      Eval.readAt call n ref) := by
  intro st
  simp only [follow_append, follow, run_enter, hx st, run_read, Stack.unwinding_bind,
    Stack.unwinding_visit, Stack.unwinding_pure, bind_assoc, pure_bind, bind_pure]

/-! ## Nodes -/

mutual

-- The induction is on the node, along the mutual recursion of the evaluator. Each case puts
-- together what the plans of the operands compute with what the steps of the node itself do.

/-- The plan of a node computes its value. -/
theorem computes_plan : ∀ n : Node, Computes call env n.plan (Eval.eval call env n)
  | .value v => fun st => by
    rw [Node.plan, Eval.eval]
    simp only [follow, run_push, Stack.unwinding_pure, pure_bind]
  | .list items => fun st => by
    rw [Node.plan, Eval.eval]
    simp only [follow, run_list, Stack.unwinding_bind, Stack.unwinding_pure, bind_assoc, bind_pure]
  | .literal v loc => fun st => by
    rw [Node.plan, Eval.eval]
    simp only [follow, run_enter, run_push, Stack.unwinding_bind, Stack.unwinding_visit,
      Stack.unwinding_pure, bind_assoc, pure_bind]
  | .identifier name loc => by
    rw [Node.plan, Eval.eval]
    exact computes_read _ (locates_binding _ name)
  | .member obj name loc => by
    rw [Node.plan, Eval.eval]
    exact computes_read _ (locates_toMember _ (computes_plan obj) name)
  | .index obj key loc => by
    rw [Node.plan, Eval.eval]
    exact computes_read _ (locates_toIndex _ (computes_plan obj) (computes_plan key))
  | .chain obj resolver loc => by
    rw [Node.plan, Eval.eval]
    exact computes_read _ (locates_toChain _ (computes_plan obj) (computes_plan resolver))
  | .superMember name loc => by
    rw [Node.plan, Eval.eval]
    exact computes_read _ (locates_superMember _ name loc)
  | .assign target v loc => fun st => by
    rw [Node.plan, Eval.eval]
    split
    · simp only [follow_append, follow, run_enter, locates_place target _ st,
        computes_plan v (_ :: st), run_write, Stack.unwinding_bind, Stack.unwinding_visit,
        Stack.unwinding_place, Stack.unwinding_pure, bind_assoc, pure_bind, bind_pure]
    · simp only [follow, run_enter, run_refuse, Stack.unwinding_bind, Stack.unwinding_visit,
        bind_assoc, pure_bind]
      rfl
  | .delete target loc => fun st => by
    unfold Node.plan Eval.eval
    -- A member of the parent cannot be deleted, a place can, and what is no place is only
    -- evaluated.
    split
    · simp only [follow, run_enter, run_refuse, Stack.unwinding_bind, Stack.unwinding_visit,
        bind_assoc, pure_bind]
      rfl
    · dsimp only
      by_cases htarget : target.isReference = true
      · simp only [htarget, if_true, follow_append, follow, run_enter, locates_place target _ st,
          run_delete, Stack.unwinding_bind, Stack.unwinding_visit, Stack.unwinding_pure, bind_assoc,
          pure_bind, bind_pure]
      · simp only [htarget, Bool.false_eq_true, if_false, follow_append, follow, run_enter,
          computes_plan target st, run_succeed, Stack.unwinding_bind, Stack.unwinding_visit,
          Stack.unwinding_pure, bind_assoc, pure_bind]
  | .call callee args loc => fun st => by
    rw [Node.plan, Eval.eval]
    -- Both sides visit the node, come to the callee and the arguments, and look at the heap.
    simp only [follow_append, follow, run_enter, computes_plan callee st, run_arguments,
      follow_planAll args _ [] (_ :: st), run_call, Stack.unwinding_bind, Stack.unwinding_visit,
      Stack.unwinding_value, Stack.unwinding_heap, bind_assoc, pure_bind, bind_pure, List.nil_append]
    refine bind_congr fun _ => bind_congr fun f => bind_congr fun vs => bind_congr fun h => ?_
    split
    · simp only [Stack.unwinding_bind, Stack.unwinding_pure, bind_assoc]
    · rfl
  | .objectLiteral entries loc => fun st => by
    rw [Node.plan, Eval.eval]
    simp only [follow_append, follow, run_enter, run_record, follow_planEntries entries,
      Stack.unwinding_bind, Stack.unwinding_visit, Stack.unwinding_pure, bind_assoc, pure_bind]
  | .program body strict loc => fun st => by
    rw [Node.plan, Eval.eval]
    simp only [follow_append, follow, run_enter, run_begin, run_push, follow_planBody body, run_leave,
      Stack.unwinding_bind, Stack.unwinding_visit, bind_assoc, pure_bind, bind_pure,
      Stack.unwinding_withStrict]
  | .other kind loc => fun st => by
    rw [Node.plan, Eval.eval]
    simp only [follow, run_enter, run_refuse, Stack.unwinding_bind, Stack.unwinding_visit, bind_assoc,
      pure_bind]
    rfl

/-- The steps to the place of a node find its reference. -/
theorem locates_place :
    ∀ target n : Node, Locates call env (target.place n) (Eval.reference call env target)
  | .identifier name loc, n => by
    rw [Node.place, Eval.reference]
    exact locates_binding n name
  | .member obj name loc, n => by
    rw [Node.place, Eval.reference]
    exact locates_toMember n (computes_plan obj) name
  | .index obj key loc, n => by
    rw [Node.place, Eval.reference]
    exact locates_toIndex n (computes_plan obj) (computes_plan key)
  | .chain obj resolver loc, n => by
    rw [Node.place, Eval.reference]
    exact locates_toChain n (computes_plan obj) (computes_plan resolver)
  | .superMember name loc, n => by
    rw [Node.place, Eval.reference]
    exact locates_superMember n name loc
  | .literal .., n | .assign .., n | .delete .., n | .call .., n | .objectLiteral .., n
  | .program .., n | .other .., n | .value .., n | .list .., n => fun st => by
    simp only [Node.place, Eval.reference, follow, run_refuse]
    rfl

/-- The steps of arguments add their values to those that are there. -/
theorem follow_planAll :
    ∀ (args : List Node) (n : Node) (vs : List Value) (st : Stack),
      follow call env (Node.planAll args n) (.arguments vs :: st)
        = do return .arguments (vs ++ (← st.unwinding (Eval.evalAll call env args))) :: st
  | [], n, vs, st => by
    rw [Node.planAll, Eval.evalAll]
    simp only [follow, Stack.unwinding_pure, pure_bind, List.append_nil]
  | arg :: args, n, vs, st => by
    rw [Node.planAll, Eval.evalAll]
    simp only [follow_append, follow, computes_plan arg (_ :: st), run_argument,
      follow_planAll args, Stack.unwinding_bind, Stack.unwinding_arguments, Stack.unwinding_pure,
      bind_assoc, pure_bind, List.append_assoc, List.singleton_append]

/-- The steps of entries fill the record that is on the stack. -/
theorem follow_planEntries :
    ∀ (entries : List (Value × Node)) (n : Node) (target : Value) (st : Stack),
      follow call env (Node.planEntries entries n) (.value target :: st) = do
        st.unwinding (Eval.evalEntries call env target entries)
        return .value target :: st
  | [], n, target, st => by
    rw [Node.planEntries, Eval.evalEntries]
    simp only [follow, Stack.unwinding_pure, pure_bind]
  | (name, v) :: rest, n, target, st => by
    rw [Node.planEntries, Eval.evalEntries]
    simp only [follow_append, follow, computes_plan v (_ :: st), run_entry, Stack.unwinding_bind,
      Stack.unwinding_value, bind_assoc, pure_bind]
    refine bind_congr fun v => bind_congr fun key => bind_congr fun k => ?_
    cases target <;> simp only [follow_planEntries rest, Stack.unwinding_bind, Stack.unwinding_pure,
      bind_assoc, pure_bind]

/-- The steps of statements replace the value that is on the stack by that of the last statement. -/
theorem follow_planBody :
    ∀ (body : List Node) (n : Node) (last : Value) (st : Stack),
      follow call env (Node.planBody body n) (.value last :: st)
        = do return .value (← st.unwinding (Eval.evalBody call env last body)) :: st
  | [], n, last, st => by
    rw [Node.planBody, Eval.evalBody]
    simp only [follow, Stack.unwinding_pure, pure_bind]
  | statement :: rest, n, last, st => by
    rw [Node.planBody, Eval.evalBody]
    simp only [follow_append, follow, computes_plan statement (_ :: st), run_next,
      follow_planBody rest, Stack.unwinding_bind, Stack.unwinding_value, bind_assoc, pure_bind]

end

/-- The plan of a program computes what running it comes to. -/
theorem computes_runPlan (program : Node) :
    Computes call env program.runPlan (Eval.run call env program) := by
  intro st
  cases program with
  | program body strict loc =>
    rw [Node.runPlan, Eval.run]
    simp only [follow_append, follow, run_begin, run_push, follow_planBody, run_leave, bind_assoc,
      pure_bind, bind_pure, Stack.unwinding_withStrict]
  | _ => exact computes_plan _ st

end Step

end ChainScript
