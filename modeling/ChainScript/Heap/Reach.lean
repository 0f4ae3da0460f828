import ChainScript.Heap.Basic

/-!
# Reachability

An object is reachable if a chain of references leads to it from a root. References are strong with
one exception: a weak store does not hold its keys. It holds its values for as long as their keys
are there, so `Heap.sweep` drops the entries with unreachable keys again and again until none is
left.
-/

namespace ChainScript

namespace Node

mutual

/-- The values that a node holds. -/
def held : Node → List Value
  | .literal v loc => v :: heldAt loc
  | .identifier name loc | .superMember name loc => name :: heldAt loc
  | .member obj name loc => name :: obj.held ++ heldAt loc
  | .index obj key loc => obj.held ++ key.held ++ heldAt loc
  | .chain obj resolver loc => obj.held ++ resolver.held ++ heldAt loc
  | .assign target v loc => target.held ++ v.held ++ heldAt loc
  | .delete target loc => target.held ++ heldAt loc
  | .call callee args loc => callee.held ++ heldAll args ++ heldAt loc
  | .objectLiteral entries loc => heldEntries entries ++ heldAt loc
  | .program body _ loc => heldAll body ++ heldAt loc
  | .other _ loc => heldAt loc
  | .value v => [v]
  | .list items => heldAll items

/-- The values that nodes hold. -/
def heldAll : List Node → List Value
  | [] => []
  | n :: ns => n.held ++ heldAll ns

/-- The values that the entries of an object literal hold. -/
def heldEntries : List (Value × Node) → List Value
  | [] => []
  | (name, n) :: rest => name :: n.held ++ heldEntries rest

/-- The values that a location holds. -/
def heldAt : Option Location → List Value
  | none => []
  | some facts => facts.map Prod.snd

end

end Node

namespace Object

/-- The labels and values of slots. -/
def slotValues (slots : List Slot) : List Value :=
  slots.flatMap fun slot => [slot.label, slot.value]

/-- The values that what a host function does refers to. -/
def behaviourValues : Behaviour → List Value
  | .constant v | .getSlot v | .setSlot v | .script _ v => [v]
  | .program held _ => held
  | _ => []

/-- The values that an object refers to strongly. -/
def references : Object → List Value
  | .record _ slots parent _ | .environment slots parent =>
    (parent.map Value.object).toList ++ slotValues slots.values
  | .list items | .tuple items => items
  | .dict entries | .proxy entries => slotValues entries.values
  | .symbol description => description.toList
  | .accessor a b | .bound a b => a.toList ++ b.toList
  | .function f => f.name.toList ++ behaviourValues f.behaviour
  | .instance _ => []
  | .store entries => slotValues entries.values
  | .weakStore entries => entries.values.map Slot.value
  | .husk data => data.toList
  | .method m => [m.receiver]
  | .iterator (.snapshot items) => items
  | .iterator (.storeKeys id _) | .iterator (.storeValues id _) => [.object id]
  | .awaitable _ held _ => held
  | .reference r => [r.base, r.name.value, r.thisValue]
  | .node n => n.held
  | .library e => e.toList
  | .evaluator globals => [.object globals]

end Object

namespace Heap

/-- The objects that a cell refers to strongly. -/
def successors (h : Heap) (id : ObjectId) : List ObjectId :=
  match h.cells[id]? with
  | none => []
  | some cell =>
    (cell.object.references ++ cell.attributes.values).filterMap Value.objectId?

/-- Marks what is reachable from a list of objects, in at most the given number of steps. -/
def mark (h : Heap) : Nat → List ObjectId → Array Bool → Array Bool
  | 0, _, marks => marks
  | _, [], marks => marks
  | fuel + 1, id :: work, marks =>
    if marks.getD id true then h.mark fuel work marks
    else h.mark fuel (h.successors id ++ work) (marks.set! id true)

/-- What the heap itself keeps reachable: the attributes of what is no object, and the functions of
classes. -/
def roots (h : Heap) : List Value :=
  h.sharedAttributes.values.flatMap Table.values ++ h.classParts.values

/-- The marks of all objects that are reachable from roots. Every reference is followed at most
once, which bounds the steps. -/
def reachable (h : Heap) (roots : List Value) : Array Bool :=
  let starts := (roots ++ h.roots).filterMap Value.objectId?
  let steps := (List.range h.size).foldl (fun n id => n + (h.successors id).length) starts.length
  h.mark (steps + 1) starts (Array.replicate h.size false)

/-- The entries of a weak store whose keys are marked. -/
def liveEntries (marks : Array Bool) (entries : StoreEntries) : StoreEntries :=
  (entries.keys.filter fun
    | .object id => !marks.getD id true
    | _ => false).foldl (fun t key => t.erase key) entries

/-- The number of entries of all weak stores. -/
def weakEntries (h : Heap) : Nat :=
  h.cells.foldl (fun n cell => match cell.object with
    | .weakStore entries => n + Table.size entries
    | _ => n) 0

/-- Drops the entries of weak stores whose keys are not reachable, in at most the given number of
rounds. -/
def sweepRounds : Nat → List Value → Heap → Heap
  | 0, _, h => h
  | rounds + 1, roots, h =>
    let marks := h.reachable roots
    let swept := { h with cells := h.cells.map fun cell => match cell.object with
      | .weakStore entries => { cell with object := .weakStore (liveEntries marks entries) }
      | _ => cell }
    -- A dropped value may have held the key of another entry, so another round may find more.
    if swept.weakEntries = h.weakEntries then swept else sweepRounds rounds roots swept

/-- Drops the entries of weak stores whose keys are not reachable from the roots. -/
def sweep (roots : List Value) (h : Heap) : Heap :=
  if h.weakEntries = 0 then h else sweepRounds (h.weakEntries + 1) roots h

end Heap

end ChainScript
