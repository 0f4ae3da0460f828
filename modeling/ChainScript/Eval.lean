import ChainScript.Access.Dispatch
import ChainScript.Heap.Tree

/-!
# Evaluation

Nodes evaluate from left to right. A node that denotes a place evaluates to a reference, and what
stands around it decides whether the reference is read, written or deleted. While a node evaluates
it is the current one, which is how a fault knows where it arose.

Evaluation recurses on the nodes alone. How a value is called is an argument, because a function of
the host may run a program of its own.
-/

namespace ChainScript

namespace Run

/-- Makes a node the current one. -/
def visit (n : Node) : Run Unit := modify fun m => { m with current := some n }

/-- A node as a value: what stands for a value is that value, and a node proper is an object. -/
def ofNode : Node → Run Value
  | .value v => return v
  | n => alloc (.node n)

end Run

namespace Node

mutual

/-- The node with every list in it made a list on the heap, so that it is the same list whenever the
node is evaluated. -/
def settle : Node → Run Node
  | .member obj name loc => return .member (← obj.settle) name loc
  | .index obj key loc => return .index (← obj.settle) (← key.settle) loc
  | .chain obj resolver loc => return .chain (← obj.settle) (← resolver.settle) loc
  | .assign target v loc => return .assign (← target.settle) (← v.settle) loc
  | .delete target loc => return .delete (← target.settle) loc
  | .call callee args loc => return .call (← callee.settle) (← settleAll args) loc
  | .objectLiteral entries loc => return .objectLiteral (← settleEntries entries) loc
  | .program body strict loc => return .program (← settleAll body) strict loc
  | .list items => do
    let settled ← settleAll items
    return .value (← Run.allocList (← settled.mapM Run.ofNode))
  | n => return n

/-- Settles nodes in order. -/
def settleAll : List Node → Run (List Node)
  | [] => return []
  | n :: ns => return (← n.settle) :: (← settleAll ns)

/-- Settles the values of an object literal in order. -/
def settleEntries : List (Value × Node) → Run (List (Value × Node))
  | [] => return []
  | (name, n) :: rest => return (name, ← n.settle) :: (← settleEntries rest)

end

end Node

namespace Run

/-- The node that a raw tree on the heap denotes. -/
def transform (tree : Value) : Run Node := do
  match (← heap).readTree tree |>.toNode with
  | .ok n => n.settle
  | .error e => fail (.tree e)

/-- The program that a value denotes: a node as it is, and a raw tree as its node. -/
def programOf (tree : Value) : Run Node := do
  match ← objectOf? tree with
  | some (.node n) => return n.toProgram
  | _ => return (← transform tree).toProgram

end Run

namespace Eval

/-- The reference of an identifier. -/
def bindingReference (env name : Value) : Run Reference := do
  Dispatch.binding env name (← get).strict

/-- The reference of a member of what the first argument evaluates to. -/
def memberReference (obj : Run Value) (name : Value) : Run Reference := do
  let base ← Ordinary.toObject (← obj)
  Reference.property base name (← get).strict .undefined false

/-- The reference of an indexed access. The key must be primitive. -/
def indexReference (obj key : Run Value) : Run Reference := do
  let base ← Ordinary.toObject (← obj)
  let key ← Ordinary.propertyKey (← key)
  Reference.property base key (← get).strict .undefined false

/-- The reference of `obj :: resolver`. -/
def chainReference (obj resolver : Run Value) : Run Reference := do
  -- The resolver is evaluated before a null base is refused.
  let base ← obj
  let resolver ← resolver
  Dispatch.chain base resolver (← get).strict

/-- The reference of a member of the parent of `this`, with `this` as the receiver. -/
def superReference (call : Caller) (env name : Value) (loc : Option Location) : Run Reference := do
  let this ← Dispatch.read call (← Dispatch.binding env (.str "this") (← get).strict)
  match (← Run.heap).objectOf? this with
  | some (.record _ _ (some home) _) =>
    Reference.property (.object home) name (← get).strict this true
  | _ => Run.fail (.noParent name (.superMember name loc))

/-- Reads a reference with the node that denotes it as the current one again. -/
def readAt (call : Caller) (n : Node) (ref : Reference) : Run Value := do
  Run.visit n
  Dispatch.read call ref

mutual

/-- The value of a node. -/
def eval (call : Caller) (env : Value) : Node → Run Value
  | .value v => return v
  | .list items => do
    let settled ← Node.settleAll items
    Run.allocList (← settled.mapM Run.ofNode)
  | .literal v loc => do
    Run.visit (.literal v loc)
    return v
  | .identifier name loc => do
    Run.visit (.identifier name loc)
    let ref ← bindingReference env name
    readAt call (.identifier name loc) ref
  | .member obj name loc => do
    Run.visit (.member obj name loc)
    let ref ← memberReference (eval call env obj) name
    readAt call (.member obj name loc) ref
  | .index obj key loc => do
    Run.visit (.index obj key loc)
    let ref ← indexReference (eval call env obj) (eval call env key)
    readAt call (.index obj key loc) ref
  | .chain obj resolver loc => do
    Run.visit (.chain obj resolver loc)
    let ref ← chainReference (eval call env obj) (eval call env resolver)
    readAt call (.chain obj resolver loc) ref
  | .superMember name loc => do
    Run.visit (.superMember name loc)
    let ref ← superReference call env name loc
    readAt call (.superMember name loc) ref
  | .assign target v loc => do
    Run.visit (.assign target v loc)
    if target.isReference then
      -- The place is found before the value is evaluated, and written after.
      let ref ← reference call env target
      let new ← eval call env v
      Run.visit (.assign target v loc)
      Dispatch.write call ref new
      return new
    else Run.fail (.badAssignTarget target)
  | .delete target loc => do
    Run.visit (.delete target loc)
    match target with
    | .superMember name superLoc => Run.fail (.superDelete (.node (.superMember name superLoc)))
    | target =>
      if target.isReference then
        let ref ← reference call env target
        Run.visit (.delete target loc)
        return .bool (← Dispatch.delete call ref)
      else
        let _ ← eval call env target
        return .bool true
  | .call callee args loc => do
    Run.visit (.call callee args loc)
    let f ← eval call env callee
    let arguments ← evalAll call env args
    -- The arguments are evaluated even if what is called turns out to be no function.
    let h ← Run.heap
    if h.isCallable f then
      Run.note (do
        let name ← Run.text ((h.shownName? f).getD (.str (h.typeName f)))
        return ["call", name, toString arguments.length])
      call f arguments
    else Run.fail (.notCallable f)
  | .objectLiteral entries loc => do
    Run.visit (.objectLiteral entries loc)
    let record ← Run.alloc (.record .plain .empty none false)
    evalEntries call env record entries
    return record
  | .program body strict loc => do
    Run.visit (.program body strict loc)
    Run.withStrict strict (evalBody call env .undefined body)
  | .other kind loc => do
    Run.visit (.other kind loc)
    Run.fail (.unknownNode (.other kind loc))

/-- The reference that a node denotes. Nothing is read from the place itself. -/
def reference (call : Caller) (env : Value) : Node → Run Reference
  | .identifier name _ => bindingReference env name
  | .member obj name _ => memberReference (eval call env obj) name
  | .index obj key _ => indexReference (eval call env obj) (eval call env key)
  | .chain obj resolver _ => chainReference (eval call env obj) (eval call env resolver)
  | .superMember name loc => superReference call env name loc
  | n => Run.fail (.notReference n)

/-- The values of nodes in order. -/
def evalAll (call : Caller) (env : Value) : List Node → Run (List Value)
  | [] => return []
  | n :: ns => do
    let v ← eval call env n
    return v :: (← evalAll call env ns)

/-- Fills the slots of a record from the entries of an object literal, in order. A value is
evaluated before its name is looked at. -/
def evalEntries (call : Caller) (env record : Value) : List (Value × Node) → Run Unit
  | [] => return
  | (name, n) :: rest => do
    let v ← eval call env n
    let key ← Ordinary.propertyKey name
    let k ← Run.keyOf key
    match record with
    | .object id => let _ ← Ordinary.writeOwn id k key v
    | _ => pure ()
    evalEntries call env record rest

/-- The value of the last statement, or the given one if there is none. -/
def evalBody (call : Caller) (env last : Value) : List Node → Run Value
  | [] => return last
  | n :: ns => do
    let v ← eval call env n
    evalBody call env v ns

end

/-- Runs a program in an environment. The program itself does not become the current node. -/
def run (call : Caller) (env : Value) : Node → Run Value
  | .program body strict _ => Run.withStrict strict (evalBody call env .undefined body)
  | n => eval call env n

end Eval

end ChainScript
