import ChainScript.Access.Kind

/-!
# Classes

Each class is also a value of the language: it can be called to make an object, and a resolver
registry can attach handlers to it. Besides the classes that come with the language there are those
that a host defines, for objects of its own and for records. `OwnClass` is what is known of such a
class: what it is called, which classes it inherits from, and which kinds of virtual access it
serves. What it does when it serves one is a function, which stands on the heap.
-/

namespace ChainScript

/-- What a class gives its objects in the place of a handler: nothing, the empty value, a number,
which is no function, a method of the object, or a function that does not belong to the object. -/
inductive Offer where
  | nothing
  | null
  | number (n : Int)
  | method
  | function
deriving DecidableEq

/-- What a class offers for each kind of access. -/
structure Offers where
  get : Offer
  set : Offer
  delete : Offer
deriving DecidableEq

namespace Offers

/-- The offers of a class that serves no access. -/
def none : Offers := ⟨.nothing, .nothing, .nothing⟩

/-- The offer for a kind of access. -/
def forKind (offers : Offers) : AccessKind → Offer
  | .get => offers.get
  | .set => offers.set
  | .delete => offers.delete

end Offers

/-- A class that a host defines. Classes of one name are told apart by their identity, and those
that a class inherits from are given by theirs. -/
structure OwnClass where
  identity : Nat
  name : String
  /-- The full name of the class in diagnostics. -/
  qualifiedName : String
  ancestors : List Nat
  offers : Offers
deriving DecidableEq

namespace OwnClass

/-- Whether objects of the class are instances of another class of the host. -/
def isA (c d : OwnClass) : Bool := c.identity == d.identity || c.ancestors.contains d.identity

end OwnClass

/-- A class of the host's own objects. -/
structure HostClass extends OwnClass where
  /-- The name of the class that the class itself belongs to. -/
  metaName : String
  /-- What that class offers, which serves accesses through the class itself. -/
  metaOffers : Offers
  /-- The only attributes that objects of the class take, if these are fixed. -/
  slots : Option (List String)
  weakReferable : Bool
  /-- The attributes with code behind them: a function that is run when one is read, set or deleted.
  -/
  computed : List String
deriving DecidableEq

namespace HostClass

/-- A class that serves nothing, and whose objects take every attribute. -/
def plain : HostClass where
  identity := 0
  name := "Obj"
  qualifiedName := "Obj"
  ancestors := []
  offers := .none
  metaName := "type"
  metaOffers := .none
  slots := none
  weakReferable := true
  computed := []

instance : Inhabited HostClass := ⟨plain⟩

/-- The class of objects that are nothing more, which take no attribute. -/
def bare : HostClass where
  identity := 1
  name := "object"
  qualifiedName := "object"
  ancestors := []
  offers := .none
  metaName := "type"
  metaOffers := .none
  slots := some []
  weakReferable := false
  computed := []

/-- Whether objects of the class take the attribute of the given name. -/
def takesAttribute (c : HostClass) (name : String) : Bool :=
  match c.slots with
  | none => true
  | some names => names.contains name

/-- What the class offers as a handler for a kind of access. -/
def offer (c : HostClass) (kind : AccessKind) : Offer := c.offers.forKind kind

end HostClass

/-- A class of records: the one that comes with the language, or one that a host derives from it. -/
inductive RecordClass where
  | plain
  | own (c : OwnClass)
deriving DecidableEq, Inhabited

namespace RecordClass

/-- The name of the class. -/
def name : RecordClass → String
  | .plain => "Record"
  | .own c => c.name

/-- What the class offers as a handler for a kind of access. -/
def offer : RecordClass → AccessKind → Offer
  | .plain, _ => .nothing
  | .own c, kind => c.offers.forKind kind

end RecordClass

/-- A class as a value. -/
inductive Class where
  | host (c : HostClass)
  | record (c : RecordClass)
  | symbol
  | accessor
  | boundFunction
  | store
  | weakStore
  | list
  | dict
  | tuple
  | str
  | object
  | callable
  | mapping
deriving DecidableEq, Inhabited

namespace Class

/-- The name of the class. -/
def name : Class → String
  | .host c => c.name
  | .record c => c.name
  | .symbol => "Symbol"
  | .accessor => "Accessor"
  | .boundFunction => "BoundFunction"
  | .store => "Store"
  | .weakStore => "WeakStore"
  | .list => "list"
  | .dict => "dict"
  | .tuple => "tuple"
  | .str => "str"
  | .object => "object"
  | .callable => "Callable"
  | .mapping => "Mapping"

/-- The name of the class that the class itself belongs to. -/
def metaName : Class → String
  | .record _ | .store | .callable | .mapping => "ABCMeta"
  | .host c => c.metaName
  | _ => "type"

/-- What the class that the class belongs to offers, as a handler that serves the class itself. -/
def metaOffer : Class → AccessKind → Offer
  | .host c, kind => c.metaOffers.forKind kind
  | _, _ => .nothing

/-- The full name of the class in diagnostics. -/
def qualifiedName : Class → String
  | .host c => c.qualifiedName
  | .record .plain => "vprop.vprop_datatypes.Record"
  | .record (.own c) => c.qualifiedName
  | .symbol => "vprop.vprop_datatypes.Symbol"
  | .accessor => "vprop.vprop_datatypes.Accessor"
  | .boundFunction => "vprop.vprop_builtins.BoundFunction"
  | .store => "vprop.vprop_builtins.Store"
  | .weakStore => "vprop.vprop_builtins.WeakStore"
  | .callable => "collections.abc.Callable"
  | .mapping => "collections.abc.Mapping"
  | c => c.name

/-- Whether the class comes with the host's language and refuses to be changed. -/
def isSealed : Class → Bool
  | .list | .dict | .tuple | .str | .object => true
  | _ => false

end Class

/-- A function that belongs to a class: one that serves an access through an object of the class or
through the class itself, or one that stands behind an attribute. -/
inductive ClassPart where
  | handler (owner : Class) (kind : AccessKind)
  | metaHandler (owner : Class) (kind : AccessKind)
  | attribute (owner : HostClass) (name : String) (kind : AccessKind)
deriving DecidableEq

namespace ClassPart

/-- The name of the function. -/
def name : ClassPart → String
  | .handler _ kind | .metaHandler _ kind => kind.reservedName
  | .attribute _ name _ => name

end ClassPart

end ChainScript
