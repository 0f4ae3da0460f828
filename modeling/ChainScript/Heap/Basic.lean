import ChainScript.Heap.Object

/-!
# The heap

Objects live in an array of cells, in the order in which they were made, and are named by their
place in it. Nothing is ever taken away. The first three cells are the reserved symbols under which
a record keeps its handlers.

A record names its parent, and an environment the one around it, by a place further down, because
the parent was there first. That is why walking up a chain ends: `owner?` and `root` step down the
array. A tuple comes after its items in the same way, and `objectKey?` steps down from it.
-/

namespace ChainScript

/-- An object with the attributes that were set on it. -/
structure Cell where
  object : Object
  attributes : Table String Value
deriving Inhabited

/-- All objects, the attributes that were set on the undefined value and on functions that are there
from the start, and the functions of the classes that the host defines. -/
structure Heap where
  cells : Array Cell
  sharedAttributes : Table Value (Table String Value)
  classParts : Table ClassPart Value
deriving Inhabited

namespace AccessKind

/-- The symbol under which a record keeps its handler for the kind. -/
def symbol : AccessKind → ObjectId
  | .get => 0
  | .set => 1
  | .delete => 2

/-- The description of that symbol. -/
def symbolDescription (kind : AccessKind) : String := "v" ++ kind.word

/-- The kinds in the order of their symbols. -/
def all : List AccessKind := [.get, .set, .delete]

end AccessKind

namespace Heap

/-- The heap that holds nothing but the reserved symbols. -/
def initial : Heap where
  cells := (AccessKind.all.map fun kind =>
    Cell.mk (.symbol (some (.str kind.symbolDescription))) .empty).toArray
  sharedAttributes := .empty
  classParts := .empty

/-- The number of cells. -/
def size (h : Heap) : Nat := h.cells.size

/-- The object at a place. -/
def object? (h : Heap) (id : ObjectId) : Option Object := (h.cells[id]?).map Cell.object

/-- The object that a value names. -/
def objectOf? (h : Heap) : Value → Option Object
  | .object id => h.object? id
  | _ => none

/-- Makes an object. -/
def alloc (h : Heap) (o : Object) : ObjectId × Heap :=
  (h.size, { h with cells := h.cells.push ⟨o, .empty⟩ })

/-- Replaces the object at a place. -/
def put (h : Heap) (id : ObjectId) (o : Object) : Heap :=
  { h with cells := h.cells.modify id fun cell => { cell with object := o } }

/-- A new object is found at its place, and all others where they were. -/
theorem object?_alloc (h : Heap) (o : Object) (id : ObjectId) :
    (h.alloc o).2.object? id = if id = h.size then some o else h.object? id := by
  simp only [alloc, object?, size, Array.getElem?_push]
  by_cases hid : id = h.cells.size <;> simp [hid]

/-- A replaced object is found at its place, if there is such a place, and all others where they
were. -/
theorem object?_put (h : Heap) (id j : ObjectId) (o : Object) :
    (h.put id o).object? j = if j = id then (h.object? id).map fun _ => o else h.object? j := by
  simp only [put, object?, Array.getElem?_modify]
  by_cases hj : j = id
  · subst hj
    cases h.cells[j]? <;> simp
  · have hj' : ¬id = j := fun e => hj e.symm
    simp [hj, hj']

/-! ## Attributes -/

/-- The attributes that were set on a value. -/
def attributes (h : Heap) : Value → Table String Value
  | .undefined => (h.sharedAttributes.find? .undefined).getD .empty
  | .builtin f => (h.sharedAttributes.find? (.builtin f)).getD .empty
  | .object id => ((h.cells[id]?).map Cell.attributes).getD .empty
  | _ => .empty

/-- Replaces the attributes of a value that can have any. -/
def putAttributes (h : Heap) (v : Value) (attributes : Table String Value) : Heap :=
  match v with
  | .undefined | .builtin _ =>
    { h with sharedAttributes := h.sharedAttributes.insert v attributes }
  | .object id =>
    { h with cells := h.cells.modify id fun cell => { cell with attributes := attributes } }
  | _ => h

/-- The function that a method passes its receiver to. -/
def functionOf (h : Heap) : Method → Value
  | .store id operation =>
    let weak := match h.object? id with
      | some (.weakStore _) => true
      | _ => false
    .builtin (.storeMethod weak operation)
  | .part _ part => (h.classParts.find? part).getD .null
  | .library _ function => .builtin (.libraryMethod function)

/-! ## Chains of slots -/

/-- The slots and the parent of an object that has them: a record or an environment. -/
def link? (h : Heap) (id : ObjectId) : Option (Slots × Option ObjectId) :=
  match h.object? id with
  | some (.record _ slots parent _) => some (slots, parent)
  | some (.environment bindings parent) => some (bindings, parent)
  | _ => none

/-- The nearest object that owns a key, from the given one up its chain of parents. -/
def owner? (h : Heap) (key : Key) (id : ObjectId) : Option ObjectId :=
  match h.link? id with
  | none => none
  | some (slots, parent) =>
    if slots.contains key then some id
    else match parent with
      | none => none
      -- The test never fails: a parent is older than what inherits from it.
      | some p => if p < id then h.owner? key p else none
termination_by id

/-- The last object of the chain of parents. -/
def root (h : Heap) (id : ObjectId) : ObjectId :=
  match h.link? id with
  | some (_, some p) => if p < id then h.root p else id
  | _ => id
termination_by id

/-- The value that the owner of a key holds under it. -/
def ownValue? (h : Heap) (id : ObjectId) (key : Key) : Option Value :=
  match h.link? id with
  | some (slots, _) => Slots.value? slots key
  | none => none

/-! ## What a value is -/

/-- The name of the type of a value. -/
def typeName (h : Heap) : Value → String
  | .null => "NoneType"
  | .undefined => "_Undefined"
  | .bool _ => "bool"
  | .int _ => "int"
  | .float _ => "float"
  | .str _ => "str"
  | .type c => c.metaName
  | .builtin _ => "function"
  | .object id => ((h.object? id).map Object.typeName).getD "object"

/-- Whether a value is a record. -/
def isRecord (h : Heap) (v : Value) : Bool :=
  match h.objectOf? v with
  | some (.record ..) => true
  | _ => false

/-- Whether a value names an ordinary slot. All others are resolvers. -/
def isPrimitive (h : Heap) (v : Value) : Bool :=
  match v with
  | .type _ | .builtin _ => false
  | .object id =>
    match h.object? id with
    | some (.symbol _) => true
    | _ => false
  | _ => true

/-- Whether a value can be called. -/
def isCallable (h : Heap) (v : Value) : Bool :=
  match v with
  | .type _ | .builtin _ => true
  | .object id =>
    match h.object? id with
    | some (.function _) | some (.bound ..) | some (.method _) => true
    | _ => false
  | _ => false

/-- Whether a value is an instance of a class. -/
def isInstance (h : Heap) (v : Value) (c : Class) : Bool :=
  match c with
  | .object => true
  | .callable => h.isCallable v
  | .str => match v with
    | .str _ => true
    | _ => false
  | c =>
    match c, h.objectOf? v with
    | .host k, some (.instance kind) => kind.isA k.toOwnClass
    | .host k, some (.function f) => f.kind.isA k.toOwnClass
    | .record .plain, some (.record ..) => true
    | .record (.own k), some (.record (.own kind) ..) => kind.isA k
    | .mapping, some (.record ..) => true
    | .mapping, some (.dict _) => true
    | .mapping, some (.proxy _) => true
    | .symbol, some (.symbol _) => true
    | .accessor, some (.accessor ..) => true
    | .boundFunction, some (.bound ..) => true
    | .store, some (.store _) => true
    | .store, some (.husk _) => true
    | .weakStore, some (.weakStore _) => true
    | .list, some (.list _) => true
    | .dict, some (.dict _) => true
    | .tuple, some (.tuple _) => true
    | _, _ => false

/-- Whether a value can stand behind a weak reference. Containers that a program shares by value,
and objects with a fixed set of attributes, cannot. -/
def isWeakReferable (h : Heap) (v : Value) : Bool :=
  match v with
  | .type _ | .builtin _ => true
  | .object id =>
    match h.object? id with
    | some (.list _) | some (.tuple _) | some (.dict _) | some (.proxy _) => false
    | some (.instance kind) => kind.weakReferable
    | some (.reference _) => false
    | some (.iterator (.snapshot _)) => false
    | some _ => true
    | none => false
  | _ => false

/-- Whether a value counts as true. Numbers do unless they are zero, containers unless they are
empty, and all other values unless they are null, undefined or false. -/
def isTruthy (h : Heap) (v : Value) : Bool :=
  match v with
  | .null | .undefined => false
  | .bool b => b
  | .int n => n != 0
  | .float x => !x.isZero
  | .str s => !s.isEmpty
  | .type _ | .builtin _ => true
  | .object id => match h.object? id with
    | some (.list items) | some (.tuple items) => !items.isEmpty
    | some (.dict entries) | some (.proxy entries) | some (.record _ entries _ _) =>
      !Table.isEmpty entries
    | some (.store entries) | some (.weakStore entries) => !Table.isEmpty entries
    | _ => true

/-! ## Keys -/

/-- The keys of all values of a list, given the key of each. -/
def allKeys (keyOf : Value → Option Key) : List Value → Option (List Key)
  | [] => some []
  | v :: vs =>
    match keyOf v, allKeys keyOf vs with
    | some k, some ks => some (k :: ks)
    | _, _ => none

/-- The key of an object, if it can name a slot: a container that can change cannot, nor can a tuple
that holds one. -/
def objectKey? (h : Heap) (id : ObjectId) : Option Key :=
  match h.object? id with
  | some (.list _) | some (.dict _) | some (.proxy _) => none
  | some (.method m) => some (.method m)
  | some (.tuple items) =>
    (allKeys (fun
      -- The test never fails: a tuple is made after its items.
      | .object item => if item < id then h.objectKey? item else none
      | v => some (.ofValue v)) items).map Key.ofItems
  | _ => some (.object id)
termination_by id

/-- The key of a value, if it can name a slot. -/
def keyOf? (h : Heap) : Value → Option Key
  | .object id => h.objectKey? id
  | v => some (.ofValue v)

end Heap

end ChainScript
