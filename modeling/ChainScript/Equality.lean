import ChainScript.Heap.Basic

/-!
# Equality

Primitives are equal by value, numbers of every type by their size. Lists, tuples and mappings are
equal by what they hold, in order where they have one, and so are nodes, wherever they stood in the
source. Every other object is equal to itself alone.
-/

namespace ChainScript

/-- Whether two values that are not compared by what they hold are equal. -/
def Value.equalPlain (a b : Value) : Bool :=
  a != .float .nan && Key.ofValue a == Key.ofValue b

namespace Node

mutual

/-- Whether two nodes are equal, given equality of values. -/
def equal (eq : Value → Value → Bool) : Node → Node → Bool
  | .literal v _, .literal w _ => eq v w
  | .identifier v _, .identifier w _ => eq v w
  | .member a v _, .member b w _ => a.equal eq b && eq v w
  | .index a k _, .index b l _ => a.equal eq b && k.equal eq l
  | .chain a k _, .chain b l _ => a.equal eq b && k.equal eq l
  | .superMember v _, .superMember w _ => eq v w
  | .assign a k _, .assign b l _ => a.equal eq b && k.equal eq l
  | .delete a _, .delete b _ => a.equal eq b
  | .call a as _, .call b bs _ => a.equal eq b && equalAll eq as bs
  | .objectLiteral as _, .objectLiteral bs _ => equalEntries eq as bs
  | .program as s _, .program bs t _ => equalAll eq as bs && s == t
  | .other k _, .other l _ => k == l
  | .value v, .value w => eq v w
  | .list as, .list bs => equalAll eq as bs
  | _, _ => false

/-- Whether two lists of nodes are equal. -/
def equalAll (eq : Value → Value → Bool) : List Node → List Node → Bool
  | [], [] => true
  | a :: as, b :: bs => a.equal eq b && equalAll eq as bs
  | _, _ => false

/-- Whether the entries of two object literals are equal. -/
def equalEntries (eq : Value → Value → Bool) : List (Value × Node) → List (Value × Node) → Bool
  | [], [] => true
  | (v, a) :: as, (w, b) :: bs => eq v w && a.equal eq b && equalEntries eq as bs
  | _, _ => false

end

end Node

namespace Heap

/-- Whether two lists of values are equal, given equality of values. -/
def equalItems (eq : Value → Value → Bool) : List Value → List Value → Bool
  | [], [] => true
  | a :: as, b :: bs => eq a b && equalItems eq as bs
  | _, _ => false

/-- Whether two mappings are equal, given equality of values. -/
def equalSlots (eq : Value → Value → Bool) (a b : Slots) : Bool :=
  Table.size a == Table.size b && a.entries.all fun (k, slot) =>
    match Slots.value? b k with
    | some w => eq slot.value w
    | none => false

/-- Whether two values are equal, to a depth. -/
def equalWithin (h : Heap) : Nat → Value → Value → Bool
  | 0, a, b => a == b
  | depth + 1, a, b =>
    let eq := h.equalWithin depth
    match h.objectOf? a, h.objectOf? b with
    | some (.node m), some (.node n) => m.equal eq n
    | some x, some y =>
      -- What is the same object is equal without a look inside.
      a == b || match x, y with
        | .list as, .list bs => equalItems eq as bs
        | .tuple as, .tuple bs => equalItems eq as bs
        | .dict as, .dict bs | .dict as, .proxy bs | .proxy as, .dict bs | .proxy as, .proxy bs =>
          equalSlots eq as bs
        | .method m, .method n => m == n
        | _, _ => false
    | _, _ => a.equalPlain b

/-- Whether two values are equal. -/
def equal (h : Heap) (a b : Value) : Bool := h.equalWithin (2 * h.size + 2) a b

end Heap

end ChainScript
