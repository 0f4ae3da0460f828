import ChainScript.Config
import ChainScript.Heap.Reach

/-!
# Runners

A runner is a machine that was set up by its settings: the built-in extensions in its registry and
the standard library in its global environment. `Runner.run` runs a program and lets its fault pass;
`Runner.execute` awaits the value and reports how the program ended, with the node at which it
failed.
-/

namespace ChainScript

namespace Machine

/-- A machine that is not set up: no handlers, and an empty global environment. -/
def blank : Machine :=
  let (globals, heap) := Heap.initial.alloc (.environment .empty none)
  { heap, globals, registry := .empty, strict := false, current := none, debug := some false,
    debugVariable := "", log := [], trace := [], wording := FaultKind.name }

/-- The values that the machine itself keeps reachable. -/
def roots (m : Machine) : List Value :=
  .object m.globals
    :: (AccessKind.all.map fun kind => .object kind.symbol)
    ++ m.registry.values.flatMap (fun handlers => handlers.toList.filterMap id)
    ++ m.log.flatMap (fun call => call.name :: call.arguments)
    ++ (m.current.map Node.held).getD []

/-- Drops the entries of weak stores whose keys are reachable neither from the machine nor from the
given values. -/
def sweep (m : Machine) (others : List Value) : Machine :=
  { m with heap := m.heap.sweep (m.roots ++ others) }

end Machine

/-- How a program ended. -/
inductive Outcome where
  | success (value : Value)
  | failure (kind : FaultKind) (message : String) (loc : Option Location)

/-- What running a program reports: how it ended, and the fault that ended it. -/
structure Report where
  outcome : Outcome
  exception : Option Fault

namespace Runner

/-- Calls a value. -/
def call : Caller := invoke callDepth

/-- The global environment. -/
def globals : Run Value := return .object (← get).globals

/-- Sets the machine up by settings. Extensions that are no text are not installed, and none gets
past the check of the settings. -/
def start (config : Config) : Run Unit := do
  let (registry, _) := Registry.install .empty config.builtins
  let bindings ← Library.bindings
  let h ← Run.heap
  modify fun m =>
    { m with registry, strict := h.isTruthy config.strict, debug := some (h.isTruthy config.debug) }
  Run.put (← get).globals (.environment bindings none)

/-- Sets the machine up without the library: every extension, and tracing left to the environment
where nothing is said about it. -/
def startBare (strict : Bool) (debug : Option Bool) : Run Unit :=
  modify fun m => { m with registry := .standard, strict, debug }

/-- Exposes a value to programs under a name. -/
def bind (name : String) (v : Value) : Run Unit := do
  Environment.assign (← globals) (.str name) v

/-- Runs a program, given as a node or as a raw tree, in the global environment, with the given way
to call values. -/
def runBy (call : Caller) (tree : Value) : Run Value := do
  let program ← Run.programOf tree
  Eval.run call (← globals) program

/-- Runs a program in the global environment. -/
def run (tree : Value) : Run Value := runBy call tree

/-- What awaiting a value comes to where it can be awaited, and any other value as it is. -/
def awaitBy (call : Caller) (v : Value) : Run Value := do
  match ← Run.objectOf? v with
  | some (.awaitable ..) => call (.builtin .await) [v]
  | _ => return v

/-- What awaiting a value comes to. -/
def await (v : Value) : Run Value := awaitBy call v

/-- The text of a fault in a report. What a fault of the host's own says is for the host to word. -/
def faultText (fault : Fault) : Run String := do
  let m ← get
  return (← Run.ofPrinted (fault.message m.heap)).getD (m.wording fault.kind)

/-- The value that a program comes to when it is run and awaited, with the given way to call values.
Where it fails before any node is reached, no node is the current one. -/
def attemptBy (call : Caller) (tree : Value) : Run Value := do
  modify fun m => { m with current := none }
  awaitBy call (← runBy call tree)

/-- The value that a program comes to when it is run and awaited. -/
def attempt (tree : Value) : Run Value := attemptBy call tree

/-- The text that shows a node in a report. -/
def placeText (h : Heap) (node : Node) : Printed String := do h.text (← h.renderNode 2 0 node)

/-- The report of a fault, with the current node. -/
def report (fault : Fault) : Run Report := do
  let m ← get
  let headline := fault.kind.reportName ++ ": " ++ (← faultText fault)
  match m.current with
  | none => return ⟨.failure fault.kind headline none, some fault⟩
  | some node =>
    let place ← Run.ofPrinted (placeText m.heap node)
    return ⟨.failure fault.kind (headline ++ "\nAt: " ++ place) node.loc, some fault⟩

/-- Runs a program and reports how it ended. Only a failure that makes the host leave passes. -/
def execute (tree : Value) : Run Report :=
  tryCatch (do return ⟨.success (← attempt tree), none⟩) fun
    | .fault fault =>
      -- The host leaves for good, which no report may hold back.
      if fault.kind = .hostExit then throw (.fault fault) else report fault
    | .outside detour => throw (.outside detour)

/-- Runs a program and tells how it ended. -/
def handle (tree : Value) : Run Outcome := return (← execute tree).outcome

/-- The text of a report for a reader: nothing for a success, and otherwise the message with the
line and the column where they are known. -/
def formatReport (h : Heap) (failed : Bool) (message line column : Value) : Printed String := do
  if !failed then return ""
  else
    let text ← h.text (if h.isTruthy message then message else .str "Unknown error")
    if line = .null then return text
    else
      let columnText ← if column = .null then pure "" else do
        let c ← h.text column
        pure (", col " ++ c)
      return "Error on line " ++ (← h.text line) ++ columnText ++ ": " ++ text

/-- A fact of a location, null where it is missing. -/
def fact (loc : Option Location) (label : String) : Value :=
  ((loc.getD []).lookup label).getD .null

/-- The text of an outcome for a reader. -/
def format (h : Heap) : Outcome → Printed String
  | .success _ => pure ""
  | .failure _ message loc =>
    formatReport h true (.str message) (fact loc "line") (fact loc "col")

end Runner

end ChainScript
