import ChainScript.Heap.Behaviour
import ChainScript.Syntax.Node
import ChainScript.Table
import ChainScript.Value.Key

/-!
# Objects

What a place on the heap can hold. Records are the objects of the language: slots, a parent to
inherit from, and a flag that freezes them. Environments hold bindings in the same way. The other
objects belong to the host: containers, stores, accessors, functions, methods and what can be
awaited. The library and the evaluator of a runner are objects as well, since a program comes to
them from the methods that it finds in the global environment.

An attribute that can be removed from an object is optional here, and absent after the removal.
-/

namespace ChainScript

/-- A named value. The label is the value that was first written as the name. -/
structure Slot where
  label : Value
  value : Value
deriving DecidableEq, Inhabited

/-- The slots of a record, the bindings of an environment or the entries of a mapping. -/
abbrev Slots := Table Key Slot

/-- The entries of an associative store, under what tells its keys apart. -/
abbrev StoreEntries := Table Value Slot

/-- A function of the host. A recorded one leaves its name and arguments in the log of calls. -/
structure HostFunction where
  name : Option Value
  recorded : Bool
  behaviour : Behaviour
  kind : HostClass

/-- What an iterator has left to give: given values, or the keys or values that a store holds by the
time they are asked for, provided that it still has as many as when the iterator was made. -/
inductive IteratorSource where
  | snapshot (items : List Value)
  | storeKeys (store : ObjectId) (size : Nat)
  | storeValues (store : ObjectId) (size : Nat)
deriving DecidableEq

/-- An object on the heap. A store whose entries were replaced by another value, or taken away, is a
husk. What can be awaited follows a program, and a coroutine does so only once. An evaluator is
known by the global environment of its runner. -/
inductive Object where
  | record (kind : RecordClass) (slots : Slots) (parent : Option ObjectId) (frozen : Bool)
  | list (items : List Value)
  | tuple (items : List Value)
  | dict (entries : Slots)
  | proxy (entries : Slots)
  | symbol (description : Option Value)
  | accessor (getter setter : Option Value)
  | function (f : HostFunction)
  | instance (kind : HostClass)
  | store (entries : StoreEntries)
  | weakStore (entries : StoreEntries)
  | husk (data : Option Value)
  | bound (target receiver : Option Value)
  | method (m : Method)
  | iterator (source : IteratorSource)
  | awaitable (once : Bool) (held : List Value) (body : HostProgram)
  | environment (bindings : Slots) (parent : Option ObjectId)
  | reference (r : Reference)
  | node (n : Node)
  | library (evaluator : Option Value)
  | evaluator (globals : ObjectId)
deriving Inhabited

namespace Object

/-- The name of the type of the object. -/
def typeName : Object → String
  | .record kind .. => kind.name
  | .list _ => "list"
  | .tuple _ => "tuple"
  | .dict _ => "dict"
  | .proxy _ => "mappingproxy"
  | .symbol _ => "Symbol"
  | .accessor .. => "Accessor"
  | .function f => f.kind.name
  | .instance kind => kind.name
  | .store _ => "Store"
  | .weakStore _ => "WeakStore"
  | .husk _ => "Store"
  | .bound .. => "BoundFunction"
  | .method _ => "method"
  | .iterator (.snapshot _) => "list_iterator"
  | .iterator _ => "generator"
  | .awaitable once .. => if once then "coroutine" else "Awaitable"
  | .environment .. => "Environment"
  | .reference _ => "Reference"
  | .node n => n.kind?.getD "Node"
  | .library _ => "StdLib"
  | .evaluator _ => "Evaluator"

end Object

namespace Slots

/-- The value in a slot. -/
def value? (slots : Slots) (key : Key) : Option Value := (slots.find? key).map Slot.value

/-- Writes a slot. A slot that is there already keeps its label and its place. -/
def put (slots : Slots) (key : Key) (label value : Value) : Slots :=
  slots.insert key ⟨((slots.find? key).map Slot.label).getD label, value⟩

/-- A slot that was written has its value, and every other slot keeps its own. -/
theorem value?_put (slots : Slots) (k j : Key) (label v : Value) :
    value? (put slots k label v) j = if j = k then some v else value? slots j := by
  unfold value? put
  rw [Table.find?_insert]
  split <;> rfl

/-- The labels of the slots in order. -/
def labels (slots : Slots) : List Value := slots.values.map Slot.label

end Slots

/-- What tells the keys of a store apart: primitives by type and value, where the two zeros are one,
and objects by identity. -/
def storeKey : Value → Value
  | .float x => if x.isZero then .float (.zero false) else .float x
  | v => v

namespace StoreEntries

/-- The value under a key. -/
def value? (entries : StoreEntries) (key : Value) : Option Value :=
  (entries.find? (storeKey key)).map Slot.value

/-- Enters a value. The key that was written last is the one that shows. -/
def put (entries : StoreEntries) (key value : Value) : StoreEntries :=
  entries.insert (storeKey key) ⟨key, value⟩

/-- A key that was entered has its value, and every key told apart from it keeps its own. -/
theorem value?_put (entries : StoreEntries) (k j v : Value) :
    value? (put entries k v) j = if storeKey j = storeKey k then some v else value? entries j := by
  unfold value? put
  rw [Table.find?_insert]
  split <;> rfl

end StoreEntries

end ChainScript
