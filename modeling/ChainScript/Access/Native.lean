import ChainScript.Run

/-!
# Attributes of the host's own

The host's language gives its objects attributes that are more than a stored value: names between
double underscores, methods of its types, the fields behind what comes with the language, and
attributes that a class computes. Here it is said which these are. An access to one of them is not
carried out by looking among what was stored; the host looks after it, by what `Builtin.attribute`
names.
-/

namespace ChainScript

namespace Native

/-- Whether a name is of the kind that the host's language reserves. The names of handlers, and the
one under which functions show theirs, are of this kind and described all the same. -/
def isReserved (name : String) : Bool :=
  !(["__vget__", "__vset__", "__vdelete__", "__name__"].contains name) &&
    match name.toList with
    | '_' :: '_' :: rest => rest.length > 2 && rest.drop (rest.length - 2) == ['_', '_']
    | _ => false

/-- The methods of texts. -/
def ofText : List String :=
  ["capitalize", "casefold", "center", "count", "encode", "endswith", "expandtabs", "find", "format",
   "format_map", "index", "isalnum", "isalpha", "isascii", "isdecimal", "isdigit", "isidentifier",
   "islower", "isnumeric", "isprintable", "isspace", "istitle", "isupper", "join", "ljust", "lower",
   "lstrip", "maketrans", "partition", "removeprefix", "removesuffix", "replace", "rfind", "rindex",
   "rjust", "rpartition", "rsplit", "rstrip", "split", "splitlines", "startswith", "strip", "swapcase",
   "title", "translate", "upper", "zfill"]

/-- The attributes of whole numbers and truth values. -/
def ofInt : List String :=
  ["as_integer_ratio", "bit_count", "bit_length", "conjugate", "denominator", "from_bytes", "imag",
   "numerator", "real", "to_bytes"]

/-- The attributes of floating-point numbers. -/
def ofFloat : List String :=
  ["as_integer_ratio", "conjugate", "fromhex", "hex", "imag", "is_integer", "real"]

/-- The methods of lists. -/
def ofList : List String :=
  ["append", "clear", "copy", "count", "extend", "index", "insert", "pop", "remove", "reverse", "sort"]

/-- The methods of tuples. -/
def ofTuple : List String := ["count", "index"]

/-- The methods of dictionaries. -/
def ofDict : List String :=
  ["clear", "copy", "fromkeys", "get", "items", "keys", "pop", "popitem", "setdefault", "update",
   "values"]

/-- The attributes of records other than their slots. -/
def ofRecord : List String :=
  ["data", "parent", "frozen", "find_owner", "freeze", "_abc_impl", "_MutableMapping__marker"] ++ ofDict

/-- The attributes of iterators over the keys or the values of a store. -/
def ofGenerator : List String :=
  ["close", "gi_code", "gi_frame", "gi_running", "gi_suspended", "gi_yieldfrom", "send", "throw"]

/-- The attributes of coroutines. -/
def ofCoroutine : List String :=
  ["close", "cr_await", "cr_code", "cr_frame", "cr_origin", "cr_running", "cr_suspended", "send",
   "throw"]

/-- The attributes of environments. -/
def ofEnvironment : List String :=
  ["assign", "bindings", "find_owner", "global_env", "lookup", "parent", "remove"]

/-- The attributes of references that are no plain fields. -/
def ofReference : List String :=
  ["_name", "is_property_reference", "is_strict", "is_unresolvable", "is_virtual", "name"]

/-- The attributes of nodes. -/
def ofNode : List String :=
  ["_fields", "args", "body", "callee", "entries", "key", "loc", "name", "obj", "resolver", "strict",
   "target", "value"]

/-- The attributes of the library of a runner, except for the evaluator. -/
def ofLibrary : List String :=
  ["VALUES", "install", "_accessor", "_create", "_freeze", "_has_own", "_is_frozen", "_keys"]

/-- The attributes of an evaluator. -/
def ofEvaluator : List String :=
  ["_dbg", "_eval_assign", "_eval_call", "_eval_delete", "current_node", "engine", "eval",
   "eval_reference", "global_env", "run", "strict"]

/-- The attributes that a class of classes gives to every class. -/
def ofMeta (metaName : String) : List String :=
  "mro" :: if metaName == "ABCMeta" then
    ["_abc_caches_clear", "_abc_impl", "_abc_registry_clear", "_dump_registry", "register"]
  else []

end Native

namespace Class

/-- The attributes of a class, except for those that `Value.given?` describes. -/
def natives (c : Class) : List String :=
  Native.ofMeta c.metaName ++ match c with
    | .store => ["size"]
    | .weakStore => ["_entry", "_ref"]
    | .boundFunction => ["receiver", "target"]
    | .str => Native.ofText
    | .list => Native.ofList
    | .tuple => Native.ofTuple
    | .dict => Native.ofDict
    | .mapping => ["get", "items", "keys", "values"]
    | .record kind => (offered kind.offer) ++ Native.ofRecord
    | .host kind => (offered kind.offer) ++ (offered kind.metaOffers.forKind) ++ kind.computed
    | _ => []
where
  /-- The names under which handlers are offered. -/
  offered (offer : AccessKind → Offer) : List String :=
    ([.get, .set, .delete].filter fun kind => offer kind != .nothing).map AccessKind.reservedName

end Class

namespace Object

/-- The attributes of an object of a type that refuses to have its attributes changed, except for
those that `given?` describes. -/
def natives : Object → List String
  | .list _ => Native.ofList
  | .tuple _ => Native.ofTuple
  | .iterator (.storeKeys ..) | .iterator (.storeValues ..) => Native.ofGenerator
  | .awaitable true .. => Native.ofCoroutine
  | .reference _ => Native.ofReference
  | _ => []

/-- Whether the host looks after an access to an attribute of the object. -/
def isForeign (kind : AccessKind) : Object → String → Bool
  | .instance c, name => c.computed.contains name
  | .function f, name => f.kind.computed.contains name
  | .store _, name => ["_data", "_abc_impl"].contains name
  | .weakStore _, name => ["_data", "_entry", "_ref"].contains name
  | .husk _, name => ["_data", "_abc_impl", "size"].contains name
  | .environment .., name => Native.ofEnvironment.contains name
  | .node _, name => Native.ofNode.contains name
  | .library _, name => Native.ofLibrary.contains name
  | .evaluator _, name => Native.ofEvaluator.contains name
  | o, name => kind == .get && o.natives.contains name

end Object

namespace Value

/-- The attributes of a value that is no object, except for those that `given?` describes. -/
def natives : Value → List String
  | .str _ => Native.ofText
  | .int _ | .bool _ => Native.ofInt
  | .float _ => Native.ofFloat
  | .type c => c.natives
  | _ => []

end Value

namespace Heap

/-- Whether the host looks after an access to an attribute. What a class holds is shared by all its
objects, so changing it is left to the host too. -/
def isForeign (h : Heap) (kind : AccessKind) (v : Value) (name : String) : Bool :=
  Native.isReserved name || match v with
    | .object id => ((h.object? id).map fun o => o.isForeign kind name).getD false
    | .type c => if kind = .get then c.natives.contains name else !c.isSealed
    | .builtin _ => kind != .get && name == "__name__"
    | v => kind == .get && v.natives.contains name

end Heap

end ChainScript
