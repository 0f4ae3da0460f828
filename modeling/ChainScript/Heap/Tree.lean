import ChainScript.Heap.Basic
import ChainScript.Syntax.Tree

/-!
# Raw trees on the heap

A raw tree is given as a value: dictionaries and lists on the heap. `Heap.readTree` copies it off
the heap, so that what it denotes depends on the tree alone.
-/

namespace ChainScript.Heap

/-- The raw tree of a value, to a depth. A branch that stands inside itself is not opened again. -/
def treeWithin (h : Heap) : Nat → List ObjectId → Value → Tree
  | 0, _, v => .leaf v
  | depth + 1, around, v =>
    match v with
    | .object id =>
      if around.contains id then .leaf v
      else match h.object? id with
        | some (.list items) => .list v (items.map (h.treeWithin depth (id :: around)))
        | some (.dict entries) =>
          .dict v (entries.values.map fun slot =>
            (slot.label, h.treeWithin depth (id :: around) slot.value))
        | some (.tuple items) => .iterable v (items.map (h.treeWithin depth (id :: around)))
        | some (.proxy entries) | some (.record _ entries _ _) =>
          .iterable v ((Slots.labels entries).map .leaf)
        | some (.store entries) => .iterable v (entries.values.map fun slot => .leaf slot.label)
        | _ => .leaf v
    | v => .leaf v

/-- The raw tree of a value. Each branch opens another cell of the heap, so none is cut short. -/
def readTree (h : Heap) (v : Value) : Tree := h.treeWithin (h.size + 1) [] v

end ChainScript.Heap
