import ChainScript.Invoke

/-!
# The evaluator under watch

Here the evaluator is written out once more, with a watcher that is told of every reference that the
evaluator builds. It is told with the flags of the programs whose runs are active at that moment,
the innermost first. A program is active while a statement of it runs, however deep the calls go
from there: what is called takes the flags of its caller along, and a program that a function of the
host runs adds its own.

Only the parts that build references, or that hand the flags on, are written out. Accesses, classes,
methods and the library are those of the evaluator itself. A watcher that keeps silent makes no
difference; that is a case of `strictness_is_scoped`, which says much more.
-/

namespace ChainScript

/-- What is told of a reference, with the flags of the active programs. -/
abbrev Watcher := List Bool → Reference → Run Unit

/-- What calls a value while programs with the given flags are active. -/
abbrev ScopedCaller := List Bool → Caller

namespace Watched

/-- Builds a reference, and tells of it. -/
def told (watch : Reference → Run Unit) (build : Run Reference) : Run Reference := do
  let ref ← build
  watch ref
  return ref

/-- The reference of a member of the parent of `this`. The reference to `this` is built on the way.
-/
def superReference (watch : Reference → Run Unit) (call : Caller) (env name : Value)
    (loc : Option Location) : Run Reference := do
  let this ← Dispatch.read call (← told watch (Eval.bindingReference env (.str "this")))
  match (← Run.heap).objectOf? this with
  | some (.record _ _ (some home) _) =>
    told watch (do Reference.property (.object home) name (← get).strict this true)
  | _ => Run.fail (.noParent name (.superMember name loc))

mutual

/-- The value of a node. -/
def eval (watch : Watcher) (call : ScopedCaller) (env : Value) (active : List Bool) :
    Node → Run Value
  | .value v => return v
  | .list items => do
    let settled ← Node.settleAll items
    Run.allocList (← settled.mapM Run.ofNode)
  | .literal v loc => do
    Run.visit (.literal v loc)
    return v
  | .identifier name loc => do
    Run.visit (.identifier name loc)
    let ref ← told (watch active) (Eval.bindingReference env name)
    Eval.readAt (call active) (.identifier name loc) ref
  | .member obj name loc => do
    Run.visit (.member obj name loc)
    let ref ← told (watch active) (Eval.memberReference (eval watch call env active obj) name)
    Eval.readAt (call active) (.member obj name loc) ref
  | .index obj key loc => do
    Run.visit (.index obj key loc)
    let ref ← told (watch active)
      (Eval.indexReference (eval watch call env active obj) (eval watch call env active key))
    Eval.readAt (call active) (.index obj key loc) ref
  | .chain obj resolver loc => do
    Run.visit (.chain obj resolver loc)
    let ref ← told (watch active)
      (Eval.chainReference (eval watch call env active obj) (eval watch call env active resolver))
    Eval.readAt (call active) (.chain obj resolver loc) ref
  | .superMember name loc => do
    Run.visit (.superMember name loc)
    let ref ← superReference (watch active) (call active) env name loc
    Eval.readAt (call active) (.superMember name loc) ref
  | .assign target v loc => do
    Run.visit (.assign target v loc)
    if target.isReference then
      let ref ← reference watch call env active target
      let new ← eval watch call env active v
      Run.visit (.assign target v loc)
      Dispatch.write (call active) ref new
      return new
    else Run.fail (.badAssignTarget target)
  | .delete target loc => do
    Run.visit (.delete target loc)
    match target with
    | .superMember name superLoc => Run.fail (.superDelete (.node (.superMember name superLoc)))
    | target =>
      if target.isReference then
        let ref ← reference watch call env active target
        Run.visit (.delete target loc)
        return .bool (← Dispatch.delete (call active) ref)
      else
        let _ ← eval watch call env active target
        return .bool true
  | .call callee args loc => do
    Run.visit (.call callee args loc)
    let f ← eval watch call env active callee
    let arguments ← evalAll watch call env active args
    let h ← Run.heap
    if h.isCallable f then
      Run.note (do
        let name ← Run.text ((h.shownName? f).getD (.str (h.typeName f)))
        return ["call", name, toString arguments.length])
      call active f arguments
    else Run.fail (.notCallable f)
  | .objectLiteral entries loc => do
    Run.visit (.objectLiteral entries loc)
    let record ← Run.alloc (.record .plain .empty none false)
    evalEntries watch call env active record entries
    return record
  | .program body strict loc => do
    Run.visit (.program body strict loc)
    -- The program is active while its statements run, and no longer.
    Run.withStrict strict (evalBody watch call env (strict :: active) .undefined body)
  | .other kind loc => do
    Run.visit (.other kind loc)
    Run.fail (.unknownNode (.other kind loc))

/-- The reference that a node denotes. -/
def reference (watch : Watcher) (call : ScopedCaller) (env : Value) (active : List Bool) :
    Node → Run Reference
  | .identifier name _ => told (watch active) (Eval.bindingReference env name)
  | .member obj name _ =>
    told (watch active) (Eval.memberReference (eval watch call env active obj) name)
  | .index obj key _ => told (watch active)
      (Eval.indexReference (eval watch call env active obj) (eval watch call env active key))
  | .chain obj resolver _ => told (watch active)
      (Eval.chainReference (eval watch call env active obj) (eval watch call env active resolver))
  | .superMember name loc => superReference (watch active) (call active) env name loc
  | n => Run.fail (.notReference n)

/-- The values of nodes in order. -/
def evalAll (watch : Watcher) (call : ScopedCaller) (env : Value) (active : List Bool) :
    List Node → Run (List Value)
  | [] => return []
  | n :: ns => do
    let v ← eval watch call env active n
    return v :: (← evalAll watch call env active ns)

/-- Fills the slots of a record from the entries of an object literal. -/
def evalEntries (watch : Watcher) (call : ScopedCaller) (env : Value) (active : List Bool)
    (record : Value) : List (Value × Node) → Run Unit
  | [] => return
  | (name, n) :: rest => do
    let v ← eval watch call env active n
    let key ← Ordinary.propertyKey name
    let k ← Run.keyOf key
    match record with
    | .object id => let _ ← Ordinary.writeOwn id k key v
    | _ => pure ()
    evalEntries watch call env active record rest

/-- The value of the last statement, or the given one if there is none. -/
def evalBody (watch : Watcher) (call : ScopedCaller) (env : Value) (active : List Bool)
    (last : Value) : List Node → Run Value
  | [] => return last
  | n :: ns => do
    let v ← eval watch call env active n
    evalBody watch call env active v ns

end

/-- Runs a program in an environment, while programs with the given flags are active. -/
def run (watch : Watcher) (call : ScopedCaller) (env : Value) (active : List Bool) :
    Node → Run Value
  | .program body strict _ =>
    Run.withStrict strict (evalBody watch call env (strict :: active) .undefined body)
  | n => eval watch call env active n

/-! ## Calls -/

/-- Runs a program with parameters bound in an environment of its own inside the global one. -/
def script (watch : Watcher) (call : ScopedCaller) (active : List Bool) (params : List String)
    (body : Value) (arguments : List Value) : Run Value := do
  let values := params.zipIdx.map fun (name, i) => (name, arguments[i]?.getD .undefined)
  let bindings := values.foldl (fun (slots : Slots) (name, v) =>
    Slots.put slots (.str name) (.str name) v) .empty
  let env ← Run.alloc (.environment bindings (some (← get).globals))
  run watch call env active (← Run.programOf body)

/-- Does what a program of the host requests. References that it asks for itself are not told of:
the evaluator has no part in them. -/
def perform (watch : Watcher) (call : ScopedCaller) (active : List Bool) : HostProgram → Run Value
  | .answer v => return v
  | .raise failure => Run.fail (.raised failure)
  | .get base key this next => do
    perform watch call active (next (← Ordinary.get (call active) base key this))
  | .set base key value this next => do
    perform watch call active (next (← Ordinary.set (call active) base key value this))
  | .delete base key next => do
    perform watch call active (next (← Ordinary.delete (call active) base key))
  | .chain base resolver strict next => do
    perform watch call active (next (← Dispatch.chain base resolver strict))
  | .binding env name strict next => do
    perform watch call active (next (← Dispatch.binding env name strict))
  | .read ref next => do perform watch call active (next (← Dispatch.read (call active) ref))
  | .write ref value next => do
    Dispatch.write (call active) ref value
    perform watch call active next
  | .remove ref next => do perform watch call active (next (← Dispatch.delete (call active) ref))
  | .call f arguments next => do perform watch call active (next (← call active f arguments))
  | .scope parent next => do perform watch call active (next (← Invoke.scope parent))
  | .run env tree next => do
    perform watch call active (next (← run watch call env active (← Run.programOf tree)))
  | .record name arguments next => do
    Invoke.record name arguments
    perform watch call active next
  | .items v next => do perform watch call active (next (← Run.iterate v))
  | .refill list items next => do
    Invoke.refill list items
    perform watch call active next
  | .attach target onGet onSet onDelete next => do
    let _ ← Host.attach target onGet onSet onDelete
    perform watch call active next
  | .detach target next => do perform watch call active (next (← Host.detach target))
  | .suspend once held body next => do
    perform watch call active (next (← Run.alloc (.awaitable once held body)))

/-- Does what was put off until it is awaited. -/
def await (watch : Watcher) (call : ScopedCaller) (active : List Bool) (v : Value) : Run Value := do
  match v, (← Run.heap).objectOf? v with
  | .object id, some (.awaitable once _ body) =>
    if once then Run.put id (.awaitable true [] Invoke.spent)
    perform watch call active body
  | _, _ => Run.failNative .typeError

/-- Calls one of the functions that are there from the start. -/
def builtin (watch : Watcher) (call : ScopedCaller) (active : List Bool) (f : Builtin)
    (arguments : List Value) : Run Value :=
  match f, arguments with
  | .await, [v] => await watch call active v
  | f, arguments => Invoke.builtin .none (call active) f arguments

/-- Does what a function of the host does. -/
def behave (watch : Watcher) (call : ScopedCaller) (active : List Bool) (id : ObjectId)
    (f : HostFunction) (arguments : List Value) : Run Value := do
  match f.behaviour with
  | .script params body => script watch call active params body arguments
  | .program _ body => perform watch call active (body arguments)
  | _ => Invoke.behave (call active) id f arguments

/-- Calls a value with arguments, while programs with the given flags are active. -/
def invoke (watch : Watcher) : Nat → ScopedCaller
  | 0, _, _, _ => Run.failNative .recursionError
  | depth + 1, active, f, arguments => do
    match f with
    | .type c => Invoke.construct c arguments
    | .builtin b => builtin watch (invoke watch depth) active b arguments
    | .object id =>
      match (← Run.heap).object? id with
      | some (.function fn) =>
        if fn.recorded then Invoke.record (fn.name.getD .null) arguments
        behave watch (invoke watch depth) active id fn arguments
      | some (.bound (some target) (some receiver)) =>
        invoke watch depth active target (receiver :: arguments)
      | some (.bound ..) => Run.failNative .attributeError
      | some (.method m) => Invoke.method .none (invoke watch depth active) m arguments
      | _ => Run.failNative .typeError
    | _ => Run.failNative .typeError

end Watched

end ChainScript
