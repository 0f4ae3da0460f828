import ChainScript.Fault
import ChainScript.Flag
import ChainScript.Registry

/-!
# Runs

A run works on a machine: the heap, the global environment, the handlers in force, and how strict
the program is at the moment. It ends with a value or with a fault, and the machine outlives both,
so what a program did before it failed stays done. A run that asks the host for something of its own
that is not described here ends outside, which is an outcome of its own.

A program can get around the language by objects of the host that it finds on its way, and each way
is a `Detour`. A run may be guarded, which makes it end outside at the detours that are barred to
it; a run without a guard takes them all.

Every fault is raised through `Run.fail`, which makes sure that its message can be made: where a
value in the message cannot be printed, that failure is what arises.
-/

namespace ChainScript

/-- A call of a recorded host function. -/
structure CallRecord where
  name : Value
  arguments : List Value
deriving DecidableEq

/-- The state of a runner and its host. -/
structure Machine where
  heap : Heap
  registry : Registry
  globals : ObjectId
  strict : Bool
  current : Option Node
  /-- Whether accesses are traced; if it is not said here, the variable below says it. -/
  debug : Option Bool
  debugVariable : String
  log : List CallRecord
  trace : List String
  /-- What the host says of a failure of its own, by the kind of the failure. -/
  wording : FaultKind → String

/-- The ways in which a program gets around the language: it reads or sets the strictness of the
evaluator as an attribute, has a method of stores change a frozen record, gives an environment
another parent, or goes on where an attribute caught a refusal that only a strict reference raises.
-/
inductive Detour where
  | readStrict
  | writeStrict
  | openFrozen
  | relink
  | forgive
deriving DecidableEq

/-- The detours that are barred. -/
abbrev Guard := Detour → Bool

namespace Guard

/-- No detour is barred. -/
def none : Guard := fun _ => false

/-- The given detours are barred. -/
def of (detours : List Detour) : Guard := fun d => detours.contains d

end Guard

/-- Why a run ends without a value: with a fault, or outside, at a barred detour or where it asks
for what is not described. -/
inductive Stop where
  | fault (cause : Fault)
  | outside (detour : Option Detour)

/-- A computation on a machine. -/
abbrev Run := ExceptT Stop (StateM Machine)

/-- What calls a value with arguments. -/
abbrev Caller := Value → List Value → Run Value

namespace Run

/-- Stops with a fault. -/
def fail {α : Type} (fault : Fault) : Run α := do
  let m ← get
  throw (.fault (fault.arising m.heap))

/-- Stops with a fault of the host's own. -/
def failNative {α : Type} (kind : FaultKind) : Run α := throw (.fault (.native kind))

/-- Ends where the host is asked for what is not described. -/
def outside {α : Type} : Run α := throw (.outside none)

/-- Takes a detour, unless it is barred. -/
def detour (guard : Guard) (d : Detour) : Run Unit :=
  if guard d then throw (.outside (some d)) else return

/-- Goes on with another answer where an action ends with a fault of certain kinds. -/
def catching {α : Type} (guard : Guard) (kinds : FaultKind → Bool) (x : Run α) (otherwise : α) :
    Run α :=
  tryCatch x fun
    | .fault cause => do
      if kinds cause.kind then
        if cause.isRefusal then detour guard .forgive
        return otherwise
      else throw (.fault cause)
    | stop => throw stop

/-- The heap as it is now. -/
def heap : Run Heap := return (← get).heap

/-- Changes the heap. -/
def modifyHeap (f : Heap → Heap) : Run Unit := modify fun m => { m with heap := f m.heap }

/-- Makes an object. -/
def alloc (o : Object) : Run Value := do
  let m ← get
  let (id, heap) := m.heap.alloc o
  set { m with heap }
  return .object id

/-- Makes a list. -/
def allocList (items : List Value) : Run Value := alloc (.list items)

/-- Replaces an object. -/
def put (id : ObjectId) (o : Object) : Run Unit := modifyHeap fun h => h.put id o

/-- The object that a value names. -/
def objectOf? (v : Value) : Run (Option Object) := return (← heap).objectOf? v

/-- What was printed, or the fault that stands for what could not be. -/
def ofPrinted {α : Type} : Printed α → Run α
  | .ok a => pure a
  | .error failure => throw (.fault (Fault.unprintable failure))

/-- The inspected form of a value. -/
def inspect (v : Value) : Run String := do ofPrinted ((← heap).inspect v)

/-- The text of a value. -/
def text (v : Value) : Run String := do ofPrinted ((← heap).text v)

/-- The key of a value that names a slot. -/
def keyOf (v : Value) : Run Key := do
  match (← heap).keyOf? v with
  | some key => return key
  | none => failNative .typeError

/-- Whether accesses are traced. -/
def tracing : Run Bool := do
  let m ← get
  match m.debug with
  | some enabled => return enabled
  | none =>
    match Flag.read? m.debugVariable with
    | some enabled => return enabled
    | none => fail (.badFlag "VPROP_DEBUG" m.debugVariable)

/-- Adds a line to the trace. The parts are put into words only where accesses are traced. -/
def note (parts : Run (List String)) : Run Unit := do
  if ← tracing then
    let parts ← parts
    modify fun m => { m with trace := m.trace ++ [" ".intercalate ("[DBG]" :: parts)] }

/-- Runs with a strictness that ends with the run, however it ends. -/
def withStrict {α : Type} (strict : Bool) (action : Run α) : Run α := do
  let saved := (← get).strict
  modify fun m => { m with strict := saved || strict }
  -- The state outlives a fault, so the strictness is put back on both ways out.
  try
    let result ← action
    modify fun m => { m with strict := saved }
    return result
  catch stop =>
    modify fun m => { m with strict := saved }
    throw stop

/-- The items that a value gives when it is iterated. An iterator has none left afterwards. -/
def iterate (v : Value) : Run (List Value) := do
  match v with
  | .str s => return s.toList.map fun c => .str (String.singleton c)
  | .object id =>
    match (← heap).object? id with
    | some (.list items) | some (.tuple items) => return items
    | some (.dict entries) | some (.proxy entries) | some (.record _ entries _ _) =>
      return Slots.labels entries
    | some (.store entries) => return entries.values.map Slot.label
    | some (.iterator source) =>
      -- An iterator is used up even when its store has changed meanwhile.
      put id (.iterator (.snapshot []))
      match source with
      | .snapshot items => return items
      | .storeKeys store size => fromStore store size Slot.label
      | .storeValues store size => fromStore store size Slot.value
    | some (.husk _) => outside
    | _ => failNative .typeError
  | _ => failNative .typeError
where
  /-- What a store holds, if it still has the given size. -/
  fromStore (store : ObjectId) (size : Nat) (part : Slot → Value) : Run (List Value) := do
    match (← heap).object? store with
    | some (.store entries) =>
      if Table.size entries = size then return entries.values.map part
      else failNative .runtimeError
    | _ => outside

/-- The two items of a value that holds two. -/
def pairOf (v : Value) : Run (Value × Value) := do
  match ← iterate v with
  | [a, b] => return (a, b)
  | _ => failNative .valueError

end Run

end ChainScript
