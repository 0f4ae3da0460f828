import ChainScript.Proofs.Lockstep
import ChainScript.Proofs.OwnHandler

/-!
# What decides on the handler of a record

A record has the handler that stands under a reserved symbol in the nearest record of its chain of
parents, itself first, that owns the symbol. Its class is asked only where no record of the chain
does. `Resolver.offered_record` says so for heaps on which the reserved symbols can be put into
words.

Heaps of a kin differ only in whether records are frozen and in what records hold under keys that
are not reserved. A search for a handler of a record looks at neither, so it ends alike on both:
`Resolver.sameEnd_handler`.
-/

namespace ChainScript

open Run (on)

namespace Heap

/-- A record, or an environment, with those that it inherits from, the nearest first. -/
def chain (h : Heap) (id : ObjectId) : List ObjectId :=
  match h.link? id with
  | none => []
  | some (_, parent) =>
    id :: match parent with
      | none => []
      | some p => if p < id then h.chain p else []
termination_by id

/-- Whether an object itself holds a key. -/
def owns (h : Heap) (key : Key) (id : ObjectId) : Bool := (h.ownValue? id key).isSome

/-- A key that is held has a value. -/
theorem owns_eq_contains {h : Heap} {key : Key} {id : ObjectId} {slots : Slots}
    {parent : Option ObjectId} (hlink : h.link? id = some (slots, parent)) :
    h.owns key id = slots.contains key := by
  unfold owns ownValue?
  rw [hlink]
  exact Option.isSome_map

/-- The nearest owner of a key is the first in the chain that holds it. -/
theorem owner?_eq_find?_chain (h : Heap) (key : Key) (id : ObjectId) :
    h.owner? key id = (h.chain id).find? (h.owns key) := by
  induction id using Nat.strongRecOn with
  | ind id ih =>
    rw [owner?, chain]
    cases hlink : h.link? id with
    | none => rfl
    | some link =>
      obtain ⟨slots, parent⟩ := link
      dsimp only
      rw [List.find?_cons, owns_eq_contains hlink]
      cases slots.contains key with
      | true => rfl
      | false =>
        cases parent with
        | none => rfl
        | some p =>
          dsimp only
          by_cases hp : p < id
          · simpa [hp] using ih p hp
          · simp [hp]

/-- An object that holds a key itself is its nearest owner. -/
theorem owner?_self {h : Heap} {id : ObjectId} {k : Key} {v : Value}
    (hslot : h.ownValue? id k = some v) : h.owner? k id = some id := by
  have howns : h.owns k id = true := by rw [owns, hslot]; rfl
  rw [owner?]
  cases hlink : h.link? id with
  | none => simp [ownValue?, hlink] at hslot
  | some link =>
    rw [owns_eq_contains hlink] at howns
    dsimp only
    rw [if_pos howns]

/-- Every reserved symbol has a description, which is no object. -/
def ReservedShown (h : Heap) : Prop :=
  ∀ kind : AccessKind, ∃ description,
    h.object? kind.symbol = some (.symbol (some description)) ∧ description.objectId? = none

/-- A value that is no object is shown alike on all heaps, and at every depth. -/
theorem exists_inspectWithin {v : Value} (hv : v.objectId? = none) :
    ∃ text, ∀ (h : Heap) (depth : Nat) (around : List ObjectId),
      h.inspectWithin (depth + 1) around v = .ok text := by
  cases v with
  | object id => cases hv
  | _ => exact ⟨_, fun h depth around => by rw [inspectWithin]; rfl⟩

/-- A symbol that is described by a value that is no object is shown alike on all heaps. -/
theorem exists_inspect_symbol (id : ObjectId) {description : Value}
    (hdescription : description.objectId? = none) :
    ∃ text, ∀ h : Heap, h.object? id = some (.symbol (some description)) →
      h.inspect (.object id) = .ok text := by
  obtain ⟨text, htext⟩ := exists_inspectWithin hdescription
  have hopen : ∀ h : Heap, h.object? id = some (.symbol (some description)) →
      ∃ depth, h.inspect (.object id) = if description = .null then .ok "Symbol()" else do
        let shown ← ValuePrinter.text
          ⟨h.inspectWithin (depth + 1) [], fun level v => h.renderWithin (depth + 1) [] 2 level v⟩
          description
        return "Symbol(" ++ shown ++ ")" := by
    intro h ho
    obtain ⟨depth, hdepth⟩ := exists_printDepth
    refine ⟨depth, ?_⟩
    show h.inspectWithin printDepth [] (.object id) = _
    rw [hdepth, inspectWithin]
    simp only [ho]
    by_cases hnull : description = .null
    · rw [if_pos hnull, if_pos (congrArg some hnull)]
      rfl
    · rw [if_neg hnull, if_neg fun heq => hnull (Option.some.inj heq)]
      rfl
  -- Text describes a symbol as it is, and any other value by the form in which it is inspected.
  have hshown : ∃ shown, ∀ (h : Heap) (depth : Nat), ValuePrinter.text
      ⟨h.inspectWithin (depth + 1) [], fun level v => h.renderWithin (depth + 1) [] 2 level v⟩
      description = .ok shown := by
    cases description with
    | str s => exact ⟨s, fun _ _ => rfl⟩
    | _ => exact ⟨text, fun h depth => htext h depth []⟩
  obtain ⟨shown, hshown⟩ := hshown
  refine ⟨if description = .null then "Symbol()" else "Symbol(" ++ shown ++ ")", fun h ho => ?_⟩
  obtain ⟨depth, hinspect⟩ := hopen h ho
  rw [hinspect, hshown]
  split <;> rfl

end Heap

/-! ## The nearest owner decides -/

namespace Resolver

/-- What a record offers in the place of a handler: what the nearest owner of the reserved symbol in
its chain holds there, and only where there is none, what its class gives it. -/
def recordOffer (h : Heap) (c : RecordClass) (id : ObjectId) (kind : AccessKind) :
    Option Given × Bool :=
  match (h.chain id).find? (h.owns (.object kind.symbol)) with
  | some owner => ((h.ownValue? owner (.object kind.symbol)).map .value, true)
  | none =>
    (((c.offer kind).given? (.object id) (.handler (.record c) kind)).map (Given.settled h), false)

/-- A record has no other offer, where the reserved symbols can be put into words. -/
theorem offered_record {h : Heap} (hshown : h.ReservedShown) {id : ObjectId} {c : RecordClass}
    {slots : Slots} {parent : Option ObjectId} {frozen : Bool}
    (hrecord : h.object? id = some (.record c slots parent frozen)) (kind : AccessKind) :
    offered h (.object id) kind = .ok (recordOffer h c id kind) := by
  obtain ⟨description, hsymbol, hdescription⟩ := hshown kind
  obtain ⟨text, htext⟩ := Heap.exists_inspect_symbol kind.symbol hdescription
  unfold offered recordOffer
  simp only [Heap.objectOf?, hrecord, Heap.owner?_eq_find?_chain]
  cases (h.chain id).find? (h.owns (.object kind.symbol)) with
  | none => rfl
  | some owner =>
    dsimp only
    rw [htext h hsymbol]
    rfl

end Resolver

/-! ## Heaps of a kin -/

/-- Two objects that a search for a handler of a record does not tell apart: the same, or records
that differ in what they hold under other keys than the reserved symbols, and in whether they are
frozen. -/
inductive Object.Kin : Object → Object → Prop
  | refl (o : Object) : Kin o o
  | record (kind : RecordClass) {slots slots' : Slots} (parent : Option ObjectId)
    (frozen frozen' : Bool)
    (hslots : ∀ access : AccessKind,
      Slots.value? slots' (.object access.symbol) = Slots.value? slots (.object access.symbol)) :
    Kin (.record kind slots parent frozen) (.record kind slots' parent frozen')

/-- Heaps of which each place holds objects of a kin, and on which classes have the same functions.
-/
structure Heap.Kin (h h' : Heap) : Prop where
  size : h'.size = h.size
  object : ∀ id, Option.Rel Object.Kin (h.object? id) (h'.object? id)
  classParts : h'.classParts = h.classParts

/-- Objects of a kin with objects of a kin are of a kin. -/
theorem Object.Kin.trans {a b c : Object} (hab : a.Kin b) (hbc : b.Kin c) : a.Kin c := by
  cases hab with
  | refl => exact hbc
  | record kind parent frozen frozen' hslots =>
    cases hbc with
    | refl => exact .record kind parent frozen frozen' hslots
    | record _ _ _ frozen'' hslots' =>
      exact .record kind parent frozen frozen'' fun access => (hslots' access).trans (hslots access)

namespace Heap.Kin

/-- A heap is kin to itself. -/
theorem refl (h : Heap) : Kin h h := by
  refine ⟨rfl, fun id => ?_, rfl⟩
  cases h.object? id with
  | none => exact .none
  | some o => exact .some (.refl o)

/-- What is kin to kin is kin. -/
theorem trans {h₁ h₂ h₃ : Heap} (h₁₂ : h₁.Kin h₂) (h₂₃ : h₂.Kin h₃) : h₁.Kin h₃ := by
  refine ⟨h₂₃.size.trans h₁₂.size, fun id => ?_, h₂₃.classParts.trans h₁₂.classParts⟩
  have ho := h₁₂.object id
  have ho' := h₂₃.object id
  revert ho ho'
  generalize h₁.object? id = a, h₂.object? id = b, h₃.object? id = c
  rintro (⟨hab⟩ | _) (⟨hbc⟩ | _)
  · exact .some (hab.trans hbc)
  · exact .none

/-- Replacing an object by one of a kin. -/
theorem put {h : Heap} {id : ObjectId} {o o' : Object} (ho : h.object? id = some o)
    (hkin : o.Kin o') : h.Kin (h.put id o') := by
  refine ⟨Array.size_modify .., fun j => ?_, rfl⟩
  rw [Heap.object?_put]
  by_cases hj : j = id
  · subst hj
    rw [if_pos rfl, ho]
    exact .some hkin
  · rw [if_neg hj]
    exact (refl h).object j

variable {h h' : Heap}

/-- Slots, bindings and parents agree, as far as the reserved symbols and the chains go. -/
theorem link (hk : h.Kin h') (id : ObjectId) :
    Option.Rel (fun a b : Slots × Option ObjectId => b.2 = a.2 ∧ ∀ access : AccessKind,
      Slots.value? b.1 (.object access.symbol) = Slots.value? a.1 (.object access.symbol))
      (h.link? id) (h'.link? id) := by
  have ho := hk.object id
  unfold Heap.link?
  revert ho
  generalize h.object? id = a, h'.object? id = b
  rintro (⟨hab⟩ | _)
  · cases hab with
    | refl =>
      rename_i o
      cases o with
      | record | environment => exact .some ⟨rfl, fun _ => rfl⟩
      | _ => exact .none
    | record kind parent frozen frozen' hslots => exact .some ⟨rfl, hslots⟩
  · exact .none

/-- What an object itself holds under a reserved symbol is the same. -/
theorem ownValue?_eq (hk : h.Kin h') (id : ObjectId) (kind : AccessKind) :
    h'.ownValue? id (.object kind.symbol) = h.ownValue? id (.object kind.symbol) := by
  have hlink := hk.link id
  unfold Heap.ownValue?
  revert hlink
  generalize h.link? id = a, h'.link? id = b
  rintro (⟨-, hslots⟩ | _)
  · exact hslots kind
  · rfl

/-- Chains are the same. -/
theorem chain_eq (hk : h.Kin h') (id : ObjectId) : h'.chain id = h.chain id := by
  induction id using Nat.strongRecOn with
  | ind id ih =>
    have hlink := hk.link id
    rw [Heap.chain, Heap.chain]
    revert hlink
    generalize h.link? id = a, h'.link? id = b
    rintro (@⟨⟨slots, parent⟩, ⟨slots', parent'⟩, hparent, -⟩ | _)
    · cases hparent
      cases parent with
      | none => rfl
      | some p =>
        dsimp only
        split
        · rename_i hp
          rw [ih p hp]
        · rfl
    · rfl

/-- A record offers the same in the place of a handler. -/
theorem recordOffer_eq (hk : h.Kin h') (c : RecordClass) (id : ObjectId) (kind : AccessKind) :
    Resolver.recordOffer h' c id kind = Resolver.recordOffer h c id kind := by
  have howns : h'.owns (.object kind.symbol) = h.owns (.object kind.symbol) := by
    funext owner
    rw [Heap.owns, Heap.owns, hk.ownValue?_eq]
  unfold Resolver.recordOffer
  rw [hk.chain_eq, howns]
  have hsettled : Given.settled h' = Given.settled h := by
    funext given
    cases given with
    | part p =>
      exact congrArg (fun parts => Given.value ((Table.find? parts p).getD .null)) hk.classParts
    | _ => rfl
  cases (h.chain id).find? (h.owns (.object kind.symbol)) with
  | none => dsimp only; rw [hsettled]
  | some owner =>
    dsimp only
    rw [hk.ownValue?_eq]

/-- What can be called is the same object, and no other object can be called. -/
theorem objectOf?_eq_of_isCallable (hk : h.Kin h') {v : Value} (hv : h.isCallable v = true) :
    h'.objectOf? v = h.objectOf? v := by
  cases v with
  | object id =>
    have ho := hk.object id
    unfold Heap.isCallable at hv
    show h'.object? id = h.object? id
    dsimp only at hv
    revert ho hv
    generalize h.object? id = a, h'.object? id = b
    rintro hv (⟨hab⟩ | _)
    · cases hab with
      | refl => rfl
      | record => cases hv
    · rfl
  | _ => rfl

/-- The same values can be called. -/
theorem isCallable_eq (hk : h.Kin h') (v : Value) : h'.isCallable v = h.isCallable v := by
  cases v with
  | object id =>
    have ho := hk.object id
    unfold Heap.isCallable
    dsimp only
    revert ho
    generalize h.object? id = a, h'.object? id = b
    rintro (⟨hab⟩ | _)
    · cases hab <;> rfl
    · rfl
  | _ => rfl

/-- Every value is an instance of the same classes. -/
theorem isInstance_eq (hk : h.Kin h') (v : Value) (c : Class) :
    h'.isInstance v c = h.isInstance v c := by
  have ho : Option.Rel Object.Kin (h.objectOf? v) (h'.objectOf? v) := by
    cases v with
    | object id => exact hk.object id
    | _ => exact .none
  unfold Heap.isInstance
  rw [hk.isCallable_eq]
  revert ho
  generalize h.objectOf? v = a, h'.objectOf? v = b
  rintro (⟨hab⟩ | _)
  · cases hab with
    | refl => rfl
    | record kind =>
      cases c with
      | record k => cases k <;> cases kind <;> rfl
      | _ => rfl
  · rfl

/-- The registry serves a resolver by the same handlers. -/
theorem lookup_eq (hk : h.Kin h') (r : Registry) (resolver : Value) :
    r.lookup h' resolver = r.lookup h resolver := by
  unfold Registry.lookup
  simp only [hk.isInstance_eq]

/-- Values have types of the same name. -/
theorem typeName_eq (hk : h.Kin h') (v : Value) : h'.typeName v = h.typeName v := by
  cases v with
  | object id =>
    have ho := hk.object id
    unfold Heap.typeName
    dsimp only
    revert ho
    generalize h.object? id = a, h'.object? id = b
    rintro (⟨hab⟩ | _)
    · cases hab <;> rfl
    · rfl
  | _ => rfl

/-- A record is one of the same class and parent. -/
theorem record (hk : h.Kin h') {id : ObjectId} {c : RecordClass} {slots : Slots}
    {parent : Option ObjectId} {frozen : Bool}
    (hrecord : h.object? id = some (.record c slots parent frozen)) :
    ∃ slots' frozen', h'.object? id = some (.record c slots' parent frozen') := by
  have ho := hk.object id
  rw [hrecord] at ho
  revert ho
  generalize h'.object? id = b
  rintro ⟨hab⟩
  cases hab with
  | refl => exact ⟨_, _, rfl⟩
  | record => exact ⟨_, _, rfl⟩

/-- A symbol is described as before. -/
theorem symbol (hk : h.Kin h') {id : ObjectId} {description : Option Value}
    (hsymbol : h.object? id = some (.symbol description)) :
    h'.object? id = some (.symbol description) := by
  have ho := hk.object id
  rw [hsymbol] at ho
  revert ho
  generalize h'.object? id = b
  rintro ⟨hab⟩
  cases hab
  rfl

/-- The reserved symbols are described as before. -/
theorem reservedShown (hk : h.Kin h') (hshown : h.ReservedShown) : h'.ReservedShown := by
  intro kind
  obtain ⟨description, hsymbol, hdescription⟩ := hshown kind
  exact ⟨description, hk.symbol hsymbol, hdescription⟩

/-- The reserved symbols are put into the same words. -/
theorem exists_inspect_symbol (hk : h.Kin h') (hshown : h.ReservedShown) (kind : AccessKind) :
    ∃ text, h.inspect (.object kind.symbol) = .ok text
      ∧ h'.inspect (.object kind.symbol) = .ok text := by
  obtain ⟨description, hsymbol, hdescription⟩ := hshown kind
  obtain ⟨text, htext⟩ := Heap.exists_inspect_symbol kind.symbol hdescription
  exact ⟨text, htext h hsymbol, htext h' (hk.symbol hsymbol)⟩

end Heap.Kin

/-! ## The search for a handler -/

/-- Machines with heaps of a kin and the same registry. -/
structure Machine.Kin (m m' : Machine) : Prop where
  heap : m.heap.Kin m'.heap
  registry : m'.registry = m.registry

/-- A machine is kin to itself. -/
theorem Machine.Kin.refl (m : Machine) : Kin m m := ⟨.refl m.heap, rfl⟩

/-- A machine that is kin to kin is kin. -/
theorem Machine.Kin.trans {m₁ m₂ m₃ : Machine} (h₁₂ : m₁.Kin m₂) (h₂₃ : m₂.Kin m₃) : m₁.Kin m₃ :=
  ⟨h₁₂.heap.trans h₂₃.heap, h₂₃.registry.trans h₁₂.registry⟩

namespace Resolver

/-- Two searches that find the same handler, or end with the same fault: the same value, which is
the same object if it can be called, or a fault that no resolver can be invoked, with the same
message. -/
structure SameEnd (p q : Except Stop Handler × Machine) : Prop where
  ends : q.1 = p.1
  function : ∀ {handler}, p.1 = .ok handler → p.2.heap.isCallable handler.function = true →
    q.2.heap.objectOf? handler.function = p.2.heap.objectOf? handler.function
  fault : ∀ {stop}, p.1 = .error stop → ∃ fault, stop = .fault fault ∧ fault.kind = .notInvocable
    ∧ fault.message q.2.heap = fault.message p.2.heap

section

variable {m m' : Machine} (hk : m.Kin m') (id : ObjectId) (kind : AccessKind)
include hk

/-- The registry ends the search alike. -/
theorem sameEnd_attachedEnd :
    SameEnd (attachedEnd (.object id) kind m, m) (attachedEnd (.object id) kind m', m') := by
  unfold attachedEnd
  rw [hk.registry, hk.heap.lookup_eq]
  cases (m.registry.lookup m.heap (.object id)).bind fun handlers => handlers.forKind kind with
  | some f => exact ⟨rfl, fun _ hf => hk.heap.objectOf?_eq_of_isCallable hf, fun he => by cases he⟩
  | none =>
    refine ⟨rfl, fun hf => (by cases hf), fun he => ⟨.noHandler (.object id) kind, ?_, rfl, ?_⟩⟩
    · exact (Except.error.inj he).symm
    · simp only [Fault.message, hk.heap.typeName_eq]

/-- So does an offer that cannot be called. -/
theorem sameEnd_refused (hshown : m.heap.ReservedShown) (bySymbol : Bool) :
    SameEnd
      (.error (.fault (Fault.arising m.heap (.handlerNotFunction (.object id) kind bySymbol))), m)
      (.error (.fault (Fault.arising m'.heap (.handlerNotFunction (.object id) kind bySymbol))), m') := by
  obtain ⟨text, htext, htext'⟩ := hk.heap.exists_inspect_symbol hshown kind
  have hmessage := message_handlerNotFunction (.object id) fun _ : bySymbol = true => htext
  have hmessage' := message_handlerNotFunction (.object id) fun _ : bySymbol = true => htext'
  rw [Fault.arising, hmessage, Fault.arising, hmessage']
  refine ⟨rfl, fun hf => (by cases hf), fun he => ⟨_, (Except.error.inj he).symm, rfl, ?_⟩⟩
  rw [hmessage, hmessage', hk.heap.typeName_eq]

/-- Searches for a handler of a record end alike on machines of a kin. -/
theorem sameEnd_handler (hshown : m.heap.ReservedShown) {c : RecordClass} {slots : Slots}
    {parent : Option ObjectId} {frozen : Bool}
    (hrecord : m.heap.object? id = some (.record c slots parent frozen)) :
    SameEnd (on (handler (.object id) kind) m) (on (handler (.object id) kind) m') := by
  obtain ⟨slots', frozen', hrecord'⟩ := hk.heap.record hrecord
  have hown := on_selfAttached (.object id) kind m
  have hown' := on_selfAttached (.object id) kind m'
  rw [offered_record hshown hrecord] at hown
  rw [offered_record (hk.heap.reservedShown hshown) hrecord', hk.heap.recordOffer_eq] at hown'
  dsimp only at hown hown'
  rw [on_handler, on_handler, hown, hown']
  have hsettled : ∀ {given bySymbol}, recordOffer m.heap c id kind = (some given, bySymbol) →
      ∀ part, given ≠ .part part := fun hoffer =>
    ne_part_of_offered ((offered_record hshown hrecord kind).trans (congrArg Except.ok hoffer))
  revert hsettled
  generalize recordOffer m.heap c id kind = offer
  intro hsettled
  obtain ⟨given, bySymbol⟩ := offer
  cases given with
  | none => exact sameEnd_attachedEnd hk id kind
  | some given =>
    cases given with
    | part p => exact (hsettled rfl p rfl).elim
    | method f =>
      -- The method is made in the same place.
      refine ⟨?_, fun hf _ => ?_, fun he => by cases he⟩
      · show Except.ok _ = Except.ok _
        rw [hk.heap.size]
      cases hf
      show ((m'.heap.alloc (.method f)).2).object? m.heap.size
        = ((m.heap.alloc (.method f)).2).object? m.heap.size
      rw [Heap.object?_alloc, Heap.object?_alloc, hk.heap.size, if_pos rfl, if_pos rfl]
    | value v =>
      by_cases hnull : v = .null
      · subst hnull
        exact sameEnd_attachedEnd hk id kind
      · rw [accept_value hnull, accept_value hnull, hk.heap.isCallable_eq]
        by_cases hcallable : m.heap.isCallable v = true
        · rw [if_pos hcallable, if_pos hcallable]
          refine ⟨rfl, fun hf hf' => ?_, fun he => by cases he⟩
          exact hk.heap.objectOf?_eq_of_isCallable hf'
        · rw [if_neg hcallable, if_neg hcallable]
          exact sameEnd_refused hk id kind hshown bySymbol

end

end Resolver

end ChainScript
