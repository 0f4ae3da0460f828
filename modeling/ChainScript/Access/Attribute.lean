import ChainScript.Access.Native

/-!
# Attributes of host objects

An object of the host has attributes under text names: those that its type gives it, and those that
were set on it, which come first. Whether an attribute can be set or removed depends on the type,
and a refusal is an answer, not a fault. What is said here is for attributes that are not the host's
own, as `Heap.isForeign` tells.
-/

namespace ChainScript

/-- An attribute that a type gives its objects: a value, a method that is made on demand, or a
function of the class itself. -/
inductive Given where
  | value (v : Value)
  | method (m : Method)
  | part (part : ClassPart)

namespace Offer

/-- What an offer comes to for one object, if the given function of the class serves it. -/
def given? (receiver : Value) (part : ClassPart) : Offer → Option Given
  | .nothing => none
  | .null => some (.value .null)
  | .number n => some (.value (.int n))
  | .method => some (.method (.part receiver part))
  | .function => some (.part part)

end Offer

namespace Given

/-- The value of an attribute. A method is made anew each time. -/
def toValue : Given → Run Value
  | .value v => return v
  | .method m => Run.alloc (.method m)
  | .part p => return ((← Run.heap).classParts.find? p).getD .null

end Given

namespace Object

/-- The attribute of a fixed name that an object keeps in a place of its own, if it still has it. -/
def kept? : Object → String → Option (Option Value)
  | .function f, "__name__" => some f.name
  | .symbol description, "description" => some description
  | .accessor getter _, "get" => some getter
  | .accessor _ setter, "set" => some setter
  | .bound target _, "target" => some target
  | .bound _ receiver, "receiver" => some receiver
  | .library e, "evaluator" => some e
  | _, _ => none

/-- The object with the attribute in a place of its own replaced or taken away. -/
def withKept : Object → String → Option Value → Object
  | .function f, "__name__", v => .function { f with name := v }
  | .symbol _, "description", v => .symbol v
  | .accessor _ setter, "get", v => .accessor v setter
  | .accessor getter _, "set", v => .accessor getter v
  | .bound _ receiver, "target", v => .bound v receiver
  | .bound target _, "receiver", v => .bound target v
  | .library _, "evaluator", v => .library v
  | o, _, _ => o

/-- Whether an attribute of the given name can be set on the object, apart from those that it keeps
in places of their own. -/
def takesAttribute : Object → String → Bool
  | .instance kind, name => kind.takesAttribute name
  | .store _, name => name != "size"
  | .awaitable once .., _ => !once
  | .symbol _, _ | .accessor .., _ | .function _, _ | .weakStore _, _ | .husk _, _
  | .environment .., _ | .node _, _ | .library _, _ | .evaluator _, _ => true
  | _, _ => false

/-- The attribute that the type of an object gives it. -/
def given? (id : ObjectId) : Object → String → Option Given
  | .store entries, name =>
    if name = "size" then some (.value (.int (Table.size entries)))
    else (StoreOperation.all.find? fun op => op.name == name).map fun op => .method (.store id op)
  | .weakStore _, name =>
    (StoreOperation.weak.find? fun op => op.name == name).map fun op => .method (.store id op)
  | .husk _, name =>
    (StoreOperation.all.find? fun op => op.name == name).map fun op => .method (.store id op)
  | .instance kind, name =>
    match AccessKind.ofReservedName? name with
    | none => none
    | some access =>
      (kind.offer access).given? (.object id) (.handler (.host kind) access)
  | .method m, "__name__" => some (.value (.str m.name))
  | .reference r, "base" => some (.value r.base)
  | .reference r, "accessed_name" => some (.value r.name.value)
  | .reference r, "this_value" => some (.value r.thisValue)
  | .reference r, "strict" => some (.value (.bool r.strict))
  | .reference r, "resolvable" => some (.value (.bool r.resolvable))
  | .reference r, "is_super" => some (.value (.bool r.isSuper))
  | _, _ => none

end Object

namespace Value

/-- The attribute that the type of a value other than an object gives it. -/
def given? : Value → String → Option Value
  | .type c, "__name__" => some (.str c.name)
  | .type .store, name =>
    (StoreOperation.all.find? fun op => op.name == name).map fun op =>
      .builtin (.storeMethod false op)
  | .type .weakStore, name =>
    (StoreOperation.weak.find? fun op => op.name == name).map fun op =>
      .builtin (.storeMethod true op)
  | .builtin f, "__name__" => some (.str f.name)
  | .undefined, "_instance" => some .undefined
  | _, _ => none

end Value

namespace Attribute

/-- The value of an attribute. A method is made anew each time it is asked for. -/
def get (v : Value) (name : String) : Run (Option Value) := do
  let h ← Run.heap
  -- What was set on the object hides what its type gives it.
  match (h.attributes v).find? name with
  | some found => return some found
  | none =>
    match v with
    | .object id =>
      match h.object? id with
      | none => return none
      | some o =>
        match o.kept? name with
        | some found => return found
        | none =>
          match o.given? id name with
          | some given => return some (← given.toValue)
          | none =>
            match o with
            -- A method shows the attributes of the function that it belongs to.
            | .method m => return (h.attributes (h.functionOf m)).find? name
            | _ => return none
    | v => return v.given? name

/-- Whether a value has an attribute. -/
def has (h : Heap) (v : Value) (name : String) : Bool :=
  (h.attributes v).contains name
    || match v with
      | .object id =>
        match h.object? id with
        | none => false
        | some o =>
          match o.kept? name with
          | some found => found.isSome
          | none => (o.given? id name).isSome || o.natives.contains name || match o with
            | .method m => (h.attributes (h.functionOf m)).contains name
            | _ => false
      | v => (v.given? name).isSome || v.natives.contains name

/-- Sets an attribute, and says whether it could. -/
def set (v : Value) (name : String) (new : Value) : Run Bool := do
  let h ← Run.heap
  let enter : Run Bool := do
    Run.modifyHeap fun h => h.putAttributes v ((h.attributes v).insert name new)
    return true
  match v with
  | .undefined | .builtin _ => enter
  | .object id =>
    match h.object? id with
    | none => return false
    | some o =>
      if (o.kept? name).isSome then
        Run.put id (o.withKept name (some new))
        return true
      else if o.takesAttribute name then enter
      else return false
  | _ => return false

/-- Removes an attribute, and says whether it could. -/
def delete (v : Value) (name : String) : Run Bool := do
  let h ← Run.heap
  if (h.attributes v).contains name then
    Run.modifyHeap fun h => h.putAttributes v ((h.attributes v).erase name)
    return true
  else match v with
    | .object id =>
      match h.object? id with
      | none => return false
      | some o =>
        match o.kept? name with
        | some (some _) =>
          Run.put id (o.withKept name none)
          return true
        -- What a type gives its objects cannot be taken from one of them.
        | _ => return false
    | _ => return false

end Attribute

end ChainScript
