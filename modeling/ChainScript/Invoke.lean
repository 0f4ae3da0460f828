import ChainScript.Access.Protocol
import ChainScript.Attach
import ChainScript.Eval
import ChainScript.Library
import ChainScript.Store

/-!
# Calls

Functions of the host, functions with a fixed receiver, methods, classes and the functions that
serve stores can be called. A function of the host may run a program, which may call functions in
its turn; how deep this goes is bounded, and a call that would go deeper fails.

`guarded` calls a value with detours barred, and `invoke` with none.
-/

namespace ChainScript

namespace Invoke

/-- A dictionary or a record of the entries that a value gives. -/
def entriesOf (source : Value) : Run Slots := do
  match (← Run.heap).objectOf? source with
  | some (.dict entries) | some (.proxy entries) | some (.record _ entries _ _) => return entries
  | some (.store entries) =>
    if Table.isEmpty entries then return .empty else Run.failNative .typeError
  | _ =>
    let mut slots : Slots := .empty
    for item in ← Run.iterate source do
      let (key, value) ← Run.pairOf item
      slots := Slots.put slots (← Run.keyOf key) key value
    return slots

/-- Makes an object of a class. -/
def construct (c : Class) (arguments : List Value) : Run Value := do
  match c, arguments with
  | .store, [] | .store, [_] => Store.make false (Library.orNull arguments 0)
  | .weakStore, [] | .weakStore, [_] => Store.make true (Library.orNull arguments 0)
  | .symbol, [] | .symbol, [_] => Run.alloc (.symbol (some (Library.orNull arguments 0)))
  | .accessor, [] | .accessor, [_] | .accessor, [_, _] =>
    Run.alloc (.accessor (some (Library.orNull arguments 0)) (some (Library.orNull arguments 1)))
  | .boundFunction, [target, receiver] => Run.alloc (.bound (some target) (some receiver))
  | .record kind, [] | .record kind, [.null] => Run.alloc (.record kind .empty none false)
  | .record kind, [source] => Run.alloc (.record kind (← entriesOf source) none false)
  | .host kind, [] => Run.alloc (.instance kind)
  | .object, [] => Run.alloc (.instance .bare)
  | .list, [] => Run.allocList []
  | .list, [source] => Run.allocList (← Run.iterate source)
  | .tuple, [] => Run.alloc (.tuple [])
  | .tuple, [source] => Run.alloc (.tuple (← Run.iterate source))
  | .dict, [] => Run.alloc (.dict .empty)
  | .dict, [source] => Run.alloc (.dict (← entriesOf source))
  | .str, [] => return .str ""
  | .str, [v] => return .str (← Run.text v)
  | _, _ => Run.failNative .typeError

/-- A function with its receiver fixed. One that has a receiver already keeps it. -/
def bind (function base : Value) : Run Value := do
  match (← Run.heap).objectOf? function with
  -- The function is a new one all the same, so a later change to one leaves the other alone.
  | some (.bound (some target) (some receiver)) => Run.alloc (.bound (some target) (some receiver))
  | some (.bound ..) => Run.failNative .attributeError
  | _ => Run.alloc (.bound (some function) (some base))

/-- Calls the method that a store shows under a name, which need not be its own. -/
def callShown (call : Caller) (store : Value) (name : String) (arguments : List Value) :
    Run Value := do
  match ← Attribute.get store name with
  | some f => call f arguments
  | none => Run.failNative .attributeError

/-- Adds a call to the log. -/
def record (name : Value) (arguments : List Value) : Run Unit :=
  modify fun m => { m with log := m.log ++ [⟨name, arguments⟩] }

/-- An empty environment inside the given one, or one that is inside no other. -/
def scope (parent : Value) : Run Value := do
  match parent, Environment.bindings? (← Run.heap) parent with
  | .null, _ => Run.alloc (.environment .empty none)
  | _, some (id, _, _) => Run.alloc (.environment .empty (some id))
  | _, none => Run.failNative .typeError

/-- Replaces the items of a list. -/
def refill (list : Value) (items : List Value) : Run Unit := do
  match list, (← Run.heap).objectOf? list with
  | .object id, some (.list _) => Run.put id (.list items)
  | _, _ => Run.failNative .typeError

/-- Does what a program of the host requests, until it answers or raises a failure. -/
def perform (call : Caller) : HostProgram → Run Value
  | .answer v => return v
  | .raise failure => Run.fail (.raised failure)
  | .get base key this next => do perform call (next (← Ordinary.get call base key this))
  | .set base key value this next => do perform call (next (← Ordinary.set call base key value this))
  | .delete base key next => do perform call (next (← Ordinary.delete call base key))
  | .chain base resolver strict next => do
    perform call (next (← Dispatch.chain base resolver strict))
  | .binding env name strict next => do perform call (next (← Dispatch.binding env name strict))
  | .read ref next => do perform call (next (← Dispatch.read call ref))
  | .write ref value next => do
    Dispatch.write call ref value
    perform call next
  | .remove ref next => do perform call (next (← Dispatch.delete call ref))
  | .call f arguments next => do perform call (next (← call f arguments))
  | .scope parent next => do perform call (next (← scope parent))
  | .run env tree next => do perform call (next (← Eval.run call env (← Run.programOf tree)))
  | .record name arguments next => do
    record name arguments
    perform call next
  | .items v next => do perform call (next (← Run.iterate v))
  | .refill list items next => do
    refill list items
    perform call next
  | .attach target onGet onSet onDelete next => do
    let _ ← Host.attach target onGet onSet onDelete
    perform call next
  | .detach target next => do perform call (next (← Host.detach target))
  | .suspend once held body next => do
    perform call (next (← Run.alloc (.awaitable once held body)))

/-- What is left of a coroutine that was awaited. -/
def spent : HostProgram := .raise ⟨.runtimeError, "cannot reuse already awaited coroutine"⟩

/-- Does what was put off until it is awaited. A coroutine does it only once. -/
def await (call : Caller) (v : Value) : Run Value := do
  match v, (← Run.heap).objectOf? v with
  | .object id, some (.awaitable once _ body) =>
    if once then Run.put id (.awaitable true [] spent)
    perform call body
  | _, _ => Run.failNative .typeError

/-- Calls one of the functions that are there from the start. -/
def builtin (guard : Guard) (call : Caller) (f : Builtin) (arguments : List Value) : Run Value := do
  match f, arguments with
  | .bindGet, [function, base] => bind function base
  | .storeGet, [store, base] => callShown call store "get" [base]
  | .storeSet, [store, base, value] =>
    let _ ← callShown call store "set" [base, value]
    return .null
  | .storeDelete, [store, base] => callShown call store "delete" [base]
  | .collect, arguments => Run.allocList arguments
  | .await, [v] => await call v
  | .storeMethod weak operation, arguments => Store.callFunction guard weak operation arguments
  | .libraryMethod function, _ :: arguments => Library.run function arguments
  | .attribute name kind, arguments => Protocol.serve guard call name kind arguments
  | _, _ => Run.failNative .typeError

/-- Calls a method. One that a class brings along calls the function of the class on the object. -/
def method (guard : Guard) (call : Caller) (m : Method) (arguments : List Value) : Run Value :=
  match m with
  | .store receiver operation => Store.callBound guard receiver operation arguments
  | .part receiver part => Protocol.callPart call part (receiver :: arguments)
  | .library _ function => Library.run function arguments

/-- Runs a program with parameters bound in an environment of its own inside the global one. -/
def script (call : Caller) (params : List String) (body : Value) (arguments : List Value) :
    Run Value := do
  let values := params.zipIdx.map fun (name, i) => (name, arguments[i]?.getD .undefined)
  let bindings := values.foldl (fun (slots : Slots) (name, v) =>
    Slots.put slots (.str name) (.str name) v) .empty
  let env ← Run.alloc (.environment bindings (some (← get).globals))
  Eval.run call env (← Run.programOf body)

/-- Does what a function of the host does. -/
def behave (call : Caller) (id : ObjectId) (f : HostFunction) (arguments : List Value) :
    Run Value := do
  match f.behaviour with
  | .arguments => Run.allocList arguments
  | .constant v => return v
  | .argument i => return arguments[i]?.getD .undefined
  | .count calls =>
    Run.put id (.function { f with behaviour := .count (calls + 1) })
    return .int (calls + 1)
  | .getSlot key =>
    match arguments with
    | base :: _ => Ordinary.get call base key .null
    | [] => Run.failNative .indexError
  | .setSlot key =>
    match arguments with
    | base :: value :: _ => return .bool (← Ordinary.set call base key value .null)
    | _ => Run.failNative .indexError
  | .raise failure => Run.fail (.raised failure)
  | .script params body => script call params body arguments
  | .program _ body => perform call (body arguments)

end Invoke

/-- Calls a value with arguments, through as many nested calls as the second argument allows, with
the given detours barred. -/
def guarded (guard : Guard) : Nat → Caller
  | 0, _, _ => Run.failNative .recursionError
  | depth + 1, f, arguments => do
    match f with
    | .type c => Invoke.construct c arguments
    | .builtin b => Invoke.builtin guard (guarded guard depth) b arguments
    | .object id =>
      match (← Run.heap).object? id with
      | some (.function fn) =>
        if fn.recorded then Invoke.record (fn.name.getD .null) arguments
        Invoke.behave (guarded guard depth) id fn arguments
      | some (.bound (some target) (some receiver)) =>
        guarded guard depth target (receiver :: arguments)
      | some (.bound ..) => Run.failNative .attributeError
      | some (.method m) => Invoke.method guard (guarded guard depth) m arguments
      | _ => Run.failNative .typeError
    | _ => Run.failNative .typeError

/-- Calls a value with arguments, through as many nested calls as the first argument allows. -/
def invoke (depth : Nat) : Caller := guarded .none depth

/-- How deep calls may nest. -/
def callDepth : Nat := 1000

end ChainScript
