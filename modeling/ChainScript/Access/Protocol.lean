import ChainScript.Access.Attribute

/-!
# Attributes that the host looks after

Reading, setting and deleting an attribute that is the host's own. Behind an attribute that a class
computes stands a function, which is called. The other ones are fields of the objects that come with
the language: what a store keeps its entries in, the environment around an environment, the
strictness of the evaluator, the class of an object, and the object and the function of a method. An
access to any other attribute of the host's own ends outside.

A read that ends with an attribute error comes to the undefined value, and a set or a delete that
ends with one, or with a type error, is refused. The host looks whether an attribute is there before
it deletes it, by reading it.
-/

namespace ChainScript.Protocol

/-- The function that the class of a value has behind an attribute, if it computes the attribute. -/
def computed? (h : Heap) (v : Value) (name : String) (kind : AccessKind) : Option ClassPart :=
  let part (c : HostClass) : Option ClassPart :=
    if c.computed.contains name then some (.attribute c name kind) else none
  match h.objectOf? v with
  | some (.instance c) => part c
  | some (.function f) => part f.kind
  | _ => none

/-- Calls the function that a class has behind an attribute. -/
def callPart (call : Caller) (part : ClassPart) (arguments : List Value) : Run Value := do
  match (← Run.heap).classParts.find? part with
  | some f => call f arguments
  | none => Run.failNative .attributeError

/-- A number as an attribute of a number, which are its real and its imaginary part among others. -/
def ofNumber (v one zero : Value) : String → Run Value
  | "real" | "numerator" => return v
  | "denominator" => return one
  | "imag" => return zero
  | _ => Run.outside

/-- The value of an attribute that no function stands behind. -/
def readField (guard : Guard) (v : Value) (name : String) : Run Value := do
  let m ← get
  match v with
  | .int n => ofNumber (.int n) (.int 1) (.int 0) name
  | .bool b => ofNumber (.int (if b then 1 else 0)) (.int 1) (.int 0) name
  | .float x => if name = "real" then return .float x else Run.outside
  | .object id =>
    match m.heap.object? id with
    | some (.instance c) =>
      if name = "__class__" then return .type (.host c) else Run.outside
    | some (.method method) =>
      if name = "__self__" then return method.receiver
      else if name = "__func__" then return m.heap.functionOf method
      else Run.outside
    | some (.husk data) =>
      if name = "_data" then
        match data with
        | some d => return d
        | none => Run.failNative .attributeError
      else if name = "size" then return .int (← Run.ofPrinted (m.heap.length v))
      else Run.outside
    | some (.environment _ parent) =>
      if name = "parent" then return (parent.map Value.object).getD .null
      else if name = "global_env" then return .object (m.heap.root id)
      else Run.outside
    | some (.evaluator globals) =>
      if name = "strict" && globals = m.globals then
        Run.detour guard .readStrict
        return .bool m.strict
      else Run.outside
    | _ => Run.outside
  | _ => Run.outside

/-- The value of an attribute. -/
def read (guard : Guard) (call : Caller) (v : Value) (name : String) : Run Value := do
  match computed? (← Run.heap) v name .get with
  | some part => callPart call part [v]
  | none => readField guard v name

/-- Makes an environment, or none, the one around an environment. What is no older environment is
not described as one around it. -/
def relink (guard : Guard) (id : ObjectId) (bindings : Slots) (new : Value) : Run Unit := do
  Run.detour guard .relink
  match new, (← Run.heap).objectOf? new with
  | .null, _ => Run.put id (.environment bindings none)
  | .object p, some (.environment ..) =>
    if p < id then Run.put id (.environment bindings (some p)) else Run.outside
  | _, _ => Run.outside

/-- Sets an attribute that no function stands behind. -/
def writeField (guard : Guard) (v : Value) (name : String) (new : Value) : Run Unit := do
  let m ← get
  match v with
  | .null | .int _ | .bool _ | .float _ | .str _ => Run.failNative .attributeError
  | .object id =>
    match m.heap.object? id with
    | some (.instance c) =>
      if name = "__class__" then
        match new with
        -- Only objects that take every attribute can change places.
        | .type (.host d) =>
          if c.slots = none && d.slots = none then Run.put id (.instance d) else Run.outside
        | _ => Run.failNative .typeError
      else Run.outside
    | some (.store _) => if name = "_data" then Run.put id (.husk (some new)) else Run.outside
    | some (.husk _) =>
      if name = "_data" then Run.put id (.husk (some new))
      else if name = "size" then Run.failNative .attributeError
      else Run.outside
    | some (.environment bindings _) =>
      if name = "parent" then relink guard id bindings new
      else if name = "global_env" then Run.failNative .attributeError
      else Run.outside
    | some (.evaluator globals) =>
      if name = "strict" && globals = m.globals then
        Run.detour guard .writeStrict
        match new with
        | .bool b => modify fun m => { m with strict := b }
        | _ => Run.outside
      else Run.outside
    | some (.list _) | some (.tuple _) | some (.method _) | some (.iterator _) | some (.bound ..)
    | some (.reference _) => Run.failNative .attributeError
    | _ => Run.outside
  | .type c => if c.isSealed then Run.failNative .typeError else Run.outside
  | _ => Run.outside

/-- Sets an attribute. -/
def write (guard : Guard) (call : Caller) (v : Value) (name : String) (new : Value) : Run Unit := do
  match computed? (← Run.heap) v name .set with
  | some part => let _ ← callPart call part [v, new]
  | none => writeField guard v name new

/-- Deletes an attribute that is there and that no function stands behind. -/
def eraseField (guard : Guard) (v : Value) (name : String) : Run Unit := do
  let m ← get
  match v with
  | .null | .int _ | .bool _ | .float _ | .str _ => Run.failNative .attributeError
  | .object id =>
    match m.heap.object? id with
    | some (.instance _) =>
      if name = "__class__" then Run.failNative .typeError else Run.outside
    | some (.store _) => if name = "_data" then Run.put id (.husk none) else Run.outside
    | some (.husk _) =>
      if name = "_data" then Run.put id (.husk none)
      else if name = "size" then Run.failNative .attributeError
      else Run.outside
    | some (.environment ..) =>
      if name = "parent" then
        Run.detour guard .relink
        Run.outside
      else if name = "global_env" then Run.failNative .attributeError
      else Run.outside
    | some (.evaluator globals) =>
      if name = "strict" && globals = m.globals then
        Run.detour guard .writeStrict
        Run.outside
      else Run.outside
    | some (.list _) | some (.tuple _) | some (.method _) | some (.iterator _) | some (.bound ..)
    | some (.reference _) => Run.failNative .attributeError
    | _ => Run.outside
  | .type c => if c.isSealed then Run.failNative .typeError else Run.outside
  | _ => Run.outside

/-- Deletes an attribute that is there. -/
def erase (guard : Guard) (call : Caller) (v : Value) (name : String) : Run Unit := do
  match computed? (← Run.heap) v name .delete with
  | some part => let _ ← callPart call part [v]
  | none => eraseField guard v name

/-- Whether a fault of the kind refuses a set or a delete, rather than pass through it. -/
def refuses (kind : FaultKind) : Bool := kind == .attributeError || kind.isTypeError

/-- Whether a fault of the kind says that an attribute is not there. -/
def misses (kind : FaultKind) : Bool := kind == .attributeError

/-- Carries out an access to an attribute, on the object and with the new value if there is one. -/
def serve (guard : Guard) (call : Caller) (name : String) (kind : AccessKind)
    (arguments : List Value) : Run Value := do
  match kind, arguments with
  | .get, [v] => Run.catching guard misses (read guard call v name) .undefined
  | .set, [v, new] =>
    Run.catching guard refuses (do write guard call v name new; return .bool true) (.bool false)
  | .delete, [v] =>
    let there ← Run.catching guard misses (do let _ ← read guard call v name; return true) false
    if there then
      Run.catching guard refuses (do erase guard call v name; return .bool true) (.bool false)
    else return .bool true
  | _, _ => Run.failNative .typeError

end ChainScript.Protocol
