import ChainScript.Proofs.Veil

/-!
# The order of evaluation

The plan of a node lists the steps of its evaluation in the order of the source: what its operands
need, then its own access. A step takes what it needs from a stack of intermediate results and
leaves its own there. It is quiet up to the one call that it may make, except that it may make the
node that it belongs to the current one.

A program is begun by a step that leaves on the stack how strict the machine was, and left by one
that puts this back. A step that fails puts back what the outermost program around it had found.

Following the plan of a node does the same as evaluating the node, whatever calls do.
-/

namespace ChainScript

open Run (on Quiet)

/-- An intermediate result: a value, a place to be read, written or deleted, the arguments of a call
that are known so far, or the strictness that a program found when it was begun. -/
inductive Item where
  | value (v : Value)
  | place (ref : Reference)
  | arguments (vs : List Value)
  | found (strict : Bool)

/-- The intermediate results, the last one first. -/
abbrev Stack := List Item

/-- What a step does. -/
inductive Act where
  /-- Makes the node the current one. -/
  | enter
  /-- Comes to a value that is there. -/
  | push (v : Value)
  /-- Makes a list. -/
  | list (items : List Node)
  /-- Finds the place of an identifier. -/
  | binding (name : Value)
  /-- Refuses null and undefined as a base. -/
  | base
  /-- Finds the place of a member. -/
  | member (name : Value)
  /-- Finds the place of an indexed access, whose key must be primitive. -/
  | index
  /-- Finds the place of a chain, whose base must not be null. -/
  | chain
  /-- Finds the place of a member of the parent of `this`. -/
  | superMember (name : Value) (loc : Option Location)
  | read
  | write
  | delete
  /-- Answers that a delete of what is no place succeeds. -/
  | succeed
  /-- Begins the arguments of a call. -/
  | arguments
  /-- Adds an argument. -/
  | argument
  | call
  /-- Makes the record of an object literal. -/
  | record
  /-- Fills a slot of the record. -/
  | entry (name : Value)
  /-- Begins a program, and makes the machine strict if the program is. -/
  | begin (strict : Bool)
  /-- Forgets the value of the statement before. -/
  | next
  /-- Leaves a program, with the machine as strict as the program found it. -/
  | leave
  | refuse (fault : Fault)

/-- A step of the evaluation of a program: the node that it belongs to, and what it does. -/
structure Step where
  owner : Node
  act : Act

namespace Node

/-- A step of a node. -/
def does (n : Node) (act : Act) : Step := ⟨n, act⟩

/-- The steps to the place of a member of what the given steps come to. -/
def toMember (n : Node) (obj : List Step) (name : Value) : List Step :=
  obj ++ [n.does .base, n.does (.member name)]

/-- The steps to the place of an indexed access. -/
def toIndex (n : Node) (obj key : List Step) : List Step :=
  obj ++ [n.does .base] ++ key ++ [n.does .index]

/-- The steps to the place of `obj :: resolver`. -/
def toChain (n : Node) (obj resolver : List Step) : List Step :=
  obj ++ resolver ++ [n.does .chain]

mutual

/-- The steps that evaluate a node, in order. -/
def plan : Node → List Step
  | .value v => [(value v).does (.push v)]
  | .list items => [(list items).does (.list items)]
  | .literal v loc =>
    let n := literal v loc
    [n.does .enter, n.does (.push v)]
  | .identifier name loc =>
    let n := identifier name loc
    [n.does .enter, n.does (.binding name), n.does .read]
  | .member obj name loc =>
    let n := member obj name loc
    [n.does .enter] ++ n.toMember obj.plan name ++ [n.does .read]
  | .index obj key loc =>
    let n := index obj key loc
    [n.does .enter] ++ n.toIndex obj.plan key.plan ++ [n.does .read]
  | .chain obj resolver loc =>
    let n := chain obj resolver loc
    [n.does .enter] ++ n.toChain obj.plan resolver.plan ++ [n.does .read]
  | .superMember name loc =>
    let n := superMember name loc
    [n.does .enter, n.does (.superMember name loc), n.does .read]
  | .assign target v loc =>
    let n := assign target v loc
    if target.isReference then
      [n.does .enter] ++ target.place n ++ v.plan ++ [n.does .write]
    else [n.does .enter, n.does (.refuse (.badAssignTarget target))]
  | .delete target loc =>
    let n := delete target loc
    match target with
    | .superMember name superLoc =>
      [n.does .enter, n.does (.refuse (.superDelete (.node (.superMember name superLoc))))]
    | target =>
      if target.isReference then [n.does .enter] ++ target.place n ++ [n.does .delete]
      else [n.does .enter] ++ target.plan ++ [n.does .succeed]
  | .call callee args loc =>
    let n := call callee args loc
    [n.does .enter] ++ callee.plan ++ [n.does .arguments] ++ planAll args n ++ [n.does .call]
  | .objectLiteral entries loc =>
    let n := objectLiteral entries loc
    [n.does .enter, n.does .record] ++ planEntries entries n
  | .program body strict loc =>
    let n := program body strict loc
    [n.does .enter, n.does (.begin strict), n.does (.push .undefined)] ++ planBody body n
      ++ [n.does .leave]
  | .other kind loc =>
    let n := other kind loc
    [n.does .enter, n.does (.refuse (.unknownNode n))]
termination_by structural n => n

/-- The steps of another node to the place that a node denotes. The place itself is not read. -/
def place : Node → Node → List Step
  | .identifier name _, n => [n.does (.binding name)]
  | .member obj name _, n => n.toMember obj.plan name
  | .index obj key _, n => n.toIndex obj.plan key.plan
  | .chain obj resolver _, n => n.toChain obj.plan resolver.plan
  | .superMember name loc, n => [n.does (.superMember name loc)]
  | target, n => [n.does (.refuse (.notReference target))]
termination_by structural target => target

/-- The steps to the arguments of a call. -/
def planAll : List Node → Node → List Step
  | [], _ => []
  | arg :: args, n => arg.plan ++ [n.does .argument] ++ planAll args n
termination_by structural args => args

/-- The steps that fill the record of an object literal. -/
def planEntries : List (Value × Node) → Node → List Step
  | [], _ => []
  | (name, v) :: rest, n => v.plan ++ [n.does (.entry name)] ++ planEntries rest n
termination_by structural entries => entries

/-- The steps of the statements of a program. -/
def planBody : List Node → Node → List Step
  | [], _ => []
  | statement :: rest, n => statement.plan ++ [n.does .next] ++ planBody rest n
termination_by structural body => body

end

/-- The steps that run a program. The program itself is not entered. -/
def runPlan : Node → List Step
  | .program body strict loc =>
    let n := program body strict loc
    [n.does (.begin strict), n.does (.push .undefined)] ++ planBody body n ++ [n.does .leave]
  | n => n.plan

end Node

/-! ## Following steps -/

namespace Pending

variable {α β : Type}

/-- What is pending, with its answer changed. -/
def map (f : α → β) : Pending α → Pending β
  | .done answer => .done (f answer)
  | .call g arguments finish => .call g arguments fun v => (finish v).map f

/-- A changed answer is the answer changed. -/
theorem bind_resolve_map (call : Caller) (f : α → β) (x : Run (Pending α)) :
    ((do return (← x).map f) >>= resolve call) = do return f (← x >>= resolve call) := by
  simp only [bind_assoc, pure_bind]
  refine bind_congr fun pending => ?_
  cases pending with
  | done answer => simp only [map, resolve, pure_bind]
  | call g arguments finish =>
    simp only [map, resolve, bind_assoc]
    refine bind_congr fun v => ?_
    cases finish v <;> rfl

end Pending

namespace Stack

/-- The strictness that the outermost program found, if one is being run. -/
def outset? : Stack → Option Bool
  | [] => none
  | .found strict :: st => some ((outset? st).getD strict)
  | _ :: st => outset? st

/-- An action that puts back the strictness that the outermost program found, if it fails. -/
def unwinding {α : Type} (st : Stack) (x : Run α) : Run α :=
  tryCatch x fun stop => do
    modify fun m => m.strictly (st.outset?.getD m.strict)
    throw stop

end Stack

namespace Act

/-- A caller for what makes no call. -/
def uncalled : Caller := fun _ _ => Run.failNative .runtimeError

/-- Whether the step makes its node the current one. -/
def visits : Act → Bool
  | .enter | .read | .write | .delete => true
  | _ => false

/-- What a step does up to the call that it makes, if it makes one: the stack that it leaves, or the
call. -/
def prepare (env : Value) : Act → Stack → Run (Pending Stack)
  | .enter, st => return .done st
  | .push v, st => return .done (.value v :: st)
  | .list items, st => do
    let settled ← Node.settleAll items
    return .done (.value (← Run.allocList (← settled.mapM Run.ofNode)) :: st)
  | .binding name, st => return .done (.place (← Eval.bindingReference env name) :: st)
  | .base, .value v :: st => return .done (.value (← Ordinary.toObject v) :: st)
  | .member name, .value v :: st => do
    let ref ← Reference.property v name (← get).strict .undefined false
    return .done (.place ref :: st)
  | .index, .value key :: .value v :: st => do
    let key ← Ordinary.propertyKey key
    let ref ← Reference.property v key (← get).strict .undefined false
    return .done (.place ref :: st)
  | .chain, .value resolver :: .value v :: st => do
    let ref ← Dispatch.chain v resolver (← get).strict
    return .done (.place ref :: st)
  -- Reading `this` is reading a binding, which makes no call.
  | .superMember name loc, st =>
    return .done (.place (← Eval.superReference uncalled env name loc) :: st)
  | .read, .place ref :: st => return (← Dispatch.pendingRead ref).map fun v => .value v :: st
  | .write, .value v :: .place ref :: st =>
    return (← Dispatch.pendingWrite ref v).map fun _ => .value v :: st
  | .delete, .place ref :: st =>
    return (← Dispatch.pendingDelete ref).map fun b => .value (.bool b) :: st
  | .succeed, .value _ :: st => return .done (.value (.bool true) :: st)
  | .arguments, st => return .done (.arguments [] :: st)
  | .argument, .value v :: .arguments vs :: st => return .done (.arguments (vs ++ [v]) :: st)
  | .call, .arguments vs :: .value f :: st => do
    let h ← Run.heap
    if h.isCallable f then
      Run.note (do
        let name ← Run.text ((h.shownName? f).getD (.str (h.typeName f)))
        return ["call", name, toString vs.length])
      return .call f vs fun v => .ok (.value v :: st)
    else Run.fail (.notCallable f)
  | .record, st => return .done (.value (← Run.alloc (.record .plain .empty none false)) :: st)
  | .entry name, .value v :: .value target :: st => do
    let key ← Ordinary.propertyKey name
    let k ← Run.keyOf key
    match target with
    | .object id => let _ ← Ordinary.writeOwn id k key v
    | _ => pure ()
    return .done (.value target :: st)
  | .begin strict, st => do
    let found := (← get).strict
    modify fun m => m.strictly (m.strict || strict)
    return .done (.found found :: st)
  | .next, .value v :: .value _ :: st => return .done (.value v :: st)
  | .leave, .value v :: .found strict :: st => do
    modify fun m => m.strictly strict
    return .done (.value v :: st)
  | .refuse fault, _ => Run.fail fault
  -- No plan comes to a step without what it needs.
  | _, _ => Run.failNative .runtimeError

end Act

namespace Step

/-- What a step does up to the call that it makes, with its node as the current one if the step
makes it so. -/
def prepare (env : Value) (s : Step) (st : Stack) : Run (Pending Stack) := do
  if s.act.visits then Run.visit s.owner
  s.act.prepare env st

/-- Takes a step. -/
def run (call : Caller) (env : Value) (s : Step) (st : Stack) : Run Stack :=
  st.unwinding (s.prepare env st >>= Pending.resolve call)

/-- Takes steps one after the other. -/
def follow (call : Caller) (env : Value) : List Step → Stack → Run Stack
  | [], st => return st
  | s :: rest, st => do follow call env rest (← s.run call env st)

/-- Steps in two parts are taken part by part. -/
theorem follow_append (call : Caller) (env : Value) (taken rest : List Step) (st : Stack) :
    follow call env (taken ++ rest) st = follow call env taken st >>= follow call env rest := by
  induction taken generalizing st with
  | nil => simp only [List.nil_append, follow, pure_bind]
  | cons s taken ih => simp only [List.cons_append, follow, ih, bind_assoc]

end Step

end ChainScript
