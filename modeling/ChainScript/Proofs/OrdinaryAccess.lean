import ChainScript.Access.Dispatch
import ChainScript.Proofs.OwnHandler

/-!
# What an ordinary access comes to

One equation for each operation and each kind of base: a record, a dictionary, a view of one, a
list, and whatever has items or attributes only. They say how the access ends and which machine it
leaves, so that later proofs never open the cascades of tests in which the operations are written.

A write to a record goes through two records. The base decides, by the nearest owner of the key,
whether an accessor takes the write over: `Ordinary.consulted?`. If none does, the write lands on
the receiver: `Ordinary.landing`.
-/

namespace ChainScript

open Run (on)

namespace Heap

/-- Every primitive names a slot, and which one does not depend on the heap. -/
theorem keyOf?_of_isPrimitive {h : Heap} {key : Value} (hkey : h.isPrimitive key = true) :
    h.keyOf? key = some (.ofValue key) := by
  cases key with
  | object id =>
    unfold isPrimitive at hkey
    dsimp only at hkey
    split at hkey
    · rename_i description ho
      rw [keyOf?, objectKey?, ho]
      rfl
    · cases hkey
  | _ => rfl

/-- The entries under keys that a value itself holds, where it is a record, a dictionary or a view
of one. -/
def entries? (h : Heap) (v : Value) : Option Slots :=
  match h.objectOf? v with
  | some (.record _ slots _ _) | some (.dict slots) | some (.proxy slots) => some slots
  | _ => none

/-- The kinds of base that ordinary accesses tell apart. -/
inductive Base (h : Heap) (base : Value) : Prop
  | record {id : ObjectId} {kind : RecordClass} {slots : Slots} {parent : Option ObjectId}
      {frozen : Bool} (hbase : base = .object id)
      (ho : h.object? id = some (.record kind slots parent frozen))
  | dict {id : ObjectId} {entries : Slots} (hbase : base = .object id)
      (ho : h.object? id = some (.dict entries))
  | proxy {id : ObjectId} {entries : Slots} (hbase : base = .object id)
      (ho : h.object? id = some (.proxy entries))
  | list {id : ObjectId} {items : List Value} (hbase : base = .object id)
      (ho : h.object? id = some (.list items))
  | other (hentries : h.entries? base = none) (hlist : ∀ items, h.objectOf? base ≠ some (.list items))

/-- Every value is a base of one of these kinds. -/
theorem base (h : Heap) (v : Value) : h.Base v := by
  cases v with
  | object id =>
    cases ho : h.object? id with
    | none => exact .other (by simp [entries?, objectOf?, ho]) (by simp [objectOf?, ho])
    | some o =>
      cases o with
      | record => exact .record rfl ho
      | dict => exact .dict rfl ho
      | proxy => exact .proxy rfl ho
      | list => exact .list rfl ho
      | _ => exact .other (by simp [entries?, objectOf?, ho]) (by simp [objectOf?, ho])
  | _ => exact .other rfl fun _ h => by cases h

variable {h : Heap} {id : ObjectId}

/-- The entries of a record are its slots. -/
theorem entries?_record {kind : RecordClass} {slots : Slots} {parent : Option ObjectId} {frozen : Bool}
    (ho : h.object? id = some (.record kind slots parent frozen)) :
    h.entries? (.object id) = some slots := by
  simp [entries?, objectOf?, ho]

/-- A dictionary has entries. -/
theorem entries?_dict {entries : Slots} (ho : h.object? id = some (.dict entries)) :
    h.entries? (.object id) = some entries := by
  simp [entries?, objectOf?, ho]

/-- So has a view of one. -/
theorem entries?_proxy {entries : Slots} (ho : h.object? id = some (.proxy entries)) :
    h.entries? (.object id) = some entries := by
  simp [entries?, objectOf?, ho]

/-- A list holds nothing under keys. -/
theorem entries?_list {items : List Value}
    (ho : h.object? id = some (.list items)) : h.entries? (.object id) = none := by
  simp [entries?, objectOf?, ho]

/-- An object that is replaced is found in its place. -/
theorem object?_put_self {o : Object} (ho : h.object? id = some o) (o' : Object) :
    (h.put id o').object? id = some o' := by
  rw [object?_put, if_pos rfl, ho]
  rfl

/-- An object put where it stands already changes nothing. -/
theorem put_self {o : Object} (ho : h.object? id = some o) :
    h.put id o = h := by
  obtain ⟨cell, hcell, rfl⟩ := Option.map_eq_some_iff.mp ho
  have hcells : h.cells.modify id (fun c => { c with object := cell.object }) = h.cells := by
    apply Array.ext_getElem?
    intro j
    rw [Array.getElem?_modify]
    split
    · rename_i hj
      subst hj
      rw [hcell]
      rfl
    · rfl
  rw [put, hcells]

end Heap

namespace Table

variable {κ ν : Type} [DecidableEq κ]

/-- Removing a key that is not there changes nothing. -/
theorem erase_of_not_contains {t : Table κ ν} {k : κ} (hk : t.contains k = false) : t.erase k = t := by
  apply eq_of_entries
  show t.entries.filter _ = t.entries
  rw [List.filter_eq_self]
  rintro ⟨a, b⟩ hab
  have hnone : t.entries.lookup k = none := by simpa [contains, find?] using hk
  have hne : k ≠ a := by simpa using List.lookup_eq_none_iff.mp hnone (a, b) hab
  simpa using hne.symm

end Table

/-! ## Attributes -/

namespace Attribute

/-- Setting an attribute replaces what the object keeps in a place of its own, or enters it among
those that were set. What does not take the attribute refuses it. -/
theorem on_set (v : Value) (name : String) (new : Value) (m : Machine) :
    on (set v name new) m =
      match v, m.heap.objectOf? v with
      | .undefined, _ | .builtin _, _ =>
        (.ok true, { m with heap := m.heap.putAttributes v ((m.heap.attributes v).insert name new) })
      | .object id, some o =>
        if (o.kept? name).isSome then
          (.ok true, { m with heap := m.heap.put id (o.withKept name (some new)) })
        else if o.takesAttribute name then
          (.ok true, { m with heap := m.heap.putAttributes v ((m.heap.attributes v).insert name new) })
        else (.ok false, m)
      | _, _ => (.ok false, m) := by
  rw [set, Run.on_bind, Run.on_heap]
  cases v with
  | object id =>
    simp only [Heap.objectOf?]
    cases m.heap.object? id with
    | none => rfl
    | some o =>
      dsimp only
      split
      · rfl
      · split <;> rfl
  | _ => rfl

/-- Removing an attribute takes it from those that were set, or from the place where the object
keeps it. What is not there, or belongs to the type, stays. -/
theorem on_delete (v : Value) (name : String) (m : Machine) :
    on (delete v name) m =
      if (m.heap.attributes v).contains name then
        (.ok true, { m with heap := m.heap.putAttributes v ((m.heap.attributes v).erase name) })
      else match v, m.heap.objectOf? v with
        | .object id, some o =>
          match o.kept? name with
          | some (some _) => (.ok true, { m with heap := m.heap.put id (o.withKept name none) })
          | _ => (.ok false, m)
        | _, _ => (.ok false, m) := by
  rw [delete, Run.on_bind, Run.on_heap]
  dsimp only
  split
  · rfl
  · cases v with
    | object id =>
      simp only [Heap.objectOf?]
      cases m.heap.object? id with
      | none => rfl
      | some o =>
        dsimp only
        rcases o.kept? name with _ | _ | kept <;> rfl
    | _ => rfl

end Attribute

namespace Ordinary

variable {m : Machine} {id : ObjectId} {k : Key} {key : Value}

/-! ## Records -/

/-- The accessor that a write to a record consults, as its getter and its setter: what the nearest
owner of the key holds, if that is an accessor. -/
def consulted? (h : Heap) (record : ObjectId) (k : Key) : Option (Option Value × Option Value) :=
  ((h.owner? k record).bind fun owner => h.ownValue? owner k).bind (accessor? h)

/-- The record that a write lands on where no accessor takes it over: the receiver if it is a
record, and the base otherwise. -/
def landing (h : Heap) (base : ObjectId) (receiver : Value) : ObjectId :=
  match receiver with
  | .object r => if h.isRecord (.object r) then r else base
  | _ => base

/-- Writing a slot of a record itself succeeds unless the record is frozen. -/
theorem on_writeOwn (id : ObjectId) (k : Key) (label value : Value) (m : Machine) :
    on (writeOwn id k label value) m = match m.heap.object? id with
      | some (.record kind slots parent false) =>
        (.ok true,
          { m with heap := m.heap.put id (.record kind (Slots.put slots k label value) parent false) })
      | _ => (.ok false, m) := by
  rw [writeOwn, Run.on_bind, Run.on_heap]
  dsimp only
  cases m.heap.object? id with
  | none => rfl
  | some o =>
    cases o with
    | record kind slots parent frozen => cases frozen <;> rfl
    | _ => rfl

variable {kind : RecordClass} {slots : Slots} {parent : Option ObjectId} {frozen : Bool}

/-- A read from a record runs the getter of the accessor that the nearest owner of the key holds,
and gives any other value that it holds. -/
theorem on_get_record (call : Caller) (ho : m.heap.object? id = some (.record kind slots parent frozen))
    (hk : m.heap.keyOf? key = some k) (this : Value) :
    on (get call (.object id) key this) m =
      match (m.heap.owner? k id).bind fun owner => m.heap.ownValue? owner k with
      | none => (.ok .undefined, m)
      | some slot =>
        match accessor? m.heap slot with
        | none => (.ok slot, m)
        | some (none, _) => (.error (.fault (.native .attributeError)), m)
        | some (some .null, _) => (.ok .undefined, m)
        | some (some getter, _) => on (call getter [receiverOf (.object id) this]) m := by
  rw [get, Run.on_bind, Run.on_heap]
  dsimp only [Heap.objectOf?]
  rw [ho]
  dsimp only
  rw [Run.on_bind, Run.on_keyOf, Run.keyOfResult, hk]
  dsimp only
  cases (m.heap.owner? k id).bind fun owner => m.heap.ownValue? owner k with
  | none => rfl
  | some slot =>
    dsimp only
    rcases accessor? m.heap slot with _ | ⟨_ | getter, setter⟩
    · rfl
    · rfl
    · cases getter <;> rfl

/-- A write to a record is taken over by the setter of the accessor that it consults, is refused
where that has none, and lands on the receiver where it consults none. -/
theorem on_set_record (call : Caller) (ho : m.heap.object? id = some (.record kind slots parent frozen))
    (hk : m.heap.keyOf? key = some k) (value this : Value) :
    on (set call (.object id) key value this) m = match consulted? m.heap id k with
      | none =>
        on (writeOwn (landing m.heap id (receiverOf (.object id) this)) k key value) m
      | some (_, none) => (.error (.fault (.native .attributeError)), m)
      | some (_, some .null) => (.ok false, m)
      | some (_, some setter) =>
        on (do
          let _ ← call setter [receiverOf (.object id) this, value]
          return true) m := by
  unfold set
  rw [Run.on_bind, Run.on_heap]
  dsimp only [Heap.objectOf?]
  rw [ho]
  dsimp only
  rw [Run.on_bind, Run.on_keyOf, Run.keyOfResult, hk]
  unfold consulted? landing
  dsimp only
  rcases ((m.heap.owner? k id).bind fun owner => m.heap.ownValue? owner k).bind (accessor? m.heap) with
    _ | ⟨getter, _ | setter⟩
  · rfl
  · rfl
  · cases setter <;> rfl

/-- A delete from a record takes the slot away unless the record is frozen. A slot that is not there
is gone already. -/
theorem on_delete_record (call : Caller) (ho : m.heap.object? id = some (.record kind slots parent frozen))
    (hk : m.heap.keyOf? key = some k) :
    on (delete call (.object id) key) m =
      if Table.contains slots k then
        if frozen then (.ok false, m)
        else (.ok true, { m with heap := m.heap.put id (.record kind (Table.erase slots k) parent frozen) })
      else (.ok true, m) := by
  rw [delete, Run.on_bind, Run.on_heap]
  dsimp only [Heap.objectOf?]
  rw [ho]
  dsimp only
  rw [Run.on_bind, Run.on_keyOf, Run.keyOfResult, hk]
  dsimp only
  cases Table.contains slots k with
  | false => rfl
  | true => cases frozen <;> rfl

/-! ## Mappings -/

variable {entries : Slots}

/-- A read from a mapping gives the entry, or the undefined value where there is none. -/
theorem on_get_mapping (call : Caller)
    (ho : m.heap.object? id = some (.dict entries) ∨ m.heap.object? id = some (.proxy entries))
    (hk : m.heap.keyOf? key = some k) (this : Value) :
    on (get call (.object id) key this) m = (.ok ((Slots.value? entries k).getD .undefined), m) := by
  rw [get, Run.on_bind, Run.on_heap]
  dsimp only [Heap.objectOf?]
  rcases ho with ho | ho
  · rw [ho]
    dsimp only
    rw [Run.on_bind, Run.on_keyOf, Run.keyOfResult, hk]
    rfl
  · rw [ho]
    dsimp only
    rw [Run.on_bind, Run.on_keyOf, Run.keyOfResult, hk]
    rfl

/-- A write to a dictionary enters the value. -/
theorem on_set_dict (call : Caller) (ho : m.heap.object? id = some (.dict entries))
    (hk : m.heap.keyOf? key = some k) (value this : Value) :
    on (set call (.object id) key value this) m =
      (.ok true, { m with heap := m.heap.put id (.dict (Slots.put entries k key value)) }) := by
  unfold set
  rw [Run.on_bind, Run.on_heap]
  dsimp only [Heap.objectOf?]
  rw [ho]
  dsimp only
  rw [Run.on_bind, Run.on_keyOf, Run.keyOfResult, hk]
  rfl

/-- A delete from a dictionary takes the entry away, if there is one. -/
theorem on_delete_dict (call : Caller) (ho : m.heap.object? id = some (.dict entries))
    (hk : m.heap.keyOf? key = some k) :
    on (delete call (.object id) key) m =
      (.ok true, { m with heap := m.heap.put id (.dict (Table.erase entries k)) }) := by
  rw [delete, Run.on_bind, Run.on_heap]
  dsimp only [Heap.objectOf?]
  rw [ho]
  dsimp only
  rw [Run.on_bind, Run.on_keyOf, Run.keyOfResult, hk]
  rfl

/-- A view of a mapping takes no value. -/
theorem on_set_proxy (call : Caller) (ho : m.heap.object? id = some (.proxy entries))
    (key value this : Value) : on (set call (.object id) key value this) m = (.ok false, m) := by
  unfold set
  rw [Run.on_bind, Run.on_heap]
  dsimp only [Heap.objectOf?]
  rw [ho]
  rfl

/-- A delete from a view of a mapping succeeds only where there is nothing to delete. -/
theorem on_delete_proxy (call : Caller) (ho : m.heap.object? id = some (.proxy entries))
    (hk : m.heap.keyOf? key = some k) :
    on (delete call (.object id) key) m = (.ok (!Table.contains entries k), m) := by
  rw [delete, Run.on_bind, Run.on_heap]
  dsimp only [Heap.objectOf?]
  rw [ho]
  dsimp only
  rw [Run.on_bind, Run.on_keyOf, Run.keyOfResult, hk]
  rfl

/-! ## Items and attributes -/

/-- Where no keys are looked up, a number reads an item, and a text an attribute. One that is the
host's own is read by a call. -/
theorem on_get_of_entries?_none (call : Caller) {base : Value} (hbase : m.heap.entries? base = none)
    (key this : Value) :
    on (get call base key this) m = match key, sequence? m.heap base with
      | .int index, some items =>
        (.ok (((position? items.length index).bind (items[·]?)).getD .undefined), m)
      | .str name, _ =>
        if m.heap.isForeign .get base name then on (call (.builtin (.attribute name .get)) [base]) m
        else on (do return (← Attribute.get base name).getD .undefined) m
      | _, _ => (.ok .undefined, m) := by
  rw [get, Run.on_bind, Run.on_heap]
  dsimp only
  generalize sequence? m.heap base = items
  unfold Heap.entries? at hbase
  split
  · simp_all
  · simp_all
  · simp_all
  · cases key with
    | int index => cases items <;> rfl
    | str name =>
      dsimp only
      split <;> rfl
    | _ => rfl

/-- A delete by a number never takes an item away, and a delete by a text removes an attribute if
there is one. One that is the host's own is deleted by a call. -/
theorem on_delete_of_entries?_none (call : Caller) {base : Value}
    (hbase : m.heap.entries? base = none) (key : Value) :
    on (delete call base key) m = match key, sequence? m.heap base with
      | .int index, some items => (.ok (position? items.length index).isNone, m)
      | .str name, _ =>
        if m.heap.isForeign .delete base name then
          on (do return (← call (.builtin (.attribute name .delete)) [base]) == .bool true) m
        else if Attribute.has m.heap base name then on (Attribute.delete base name) m
        else (.ok true, m)
      | _, _ => (.ok true, m) := by
  rw [delete, Run.on_bind, Run.on_heap]
  dsimp only
  generalize sequence? m.heap base = items
  unfold Heap.entries? at hbase
  split
  · simp_all
  · simp_all
  · simp_all
  · cases key with
    | int index => cases items <;> rfl
    | str name =>
      dsimp only
      split
      · rfl
      · split <;> rfl
    | _ => rfl

/-- A list takes a value in the place of an item that it has, and nothing else. -/
theorem on_set_list (call : Caller) {items : List Value} (ho : m.heap.object? id = some (.list items))
    (key value this : Value) :
    on (set call (.object id) key value this) m = match key with
      | .int index =>
        match position? items.length index with
        | some i => (.ok true, { m with heap := m.heap.put id (.list (items.set i value)) })
        | none => (.ok false, m)
      | _ => (.ok false, m) := by
  unfold set
  rw [Run.on_bind, Run.on_heap]
  dsimp only [Heap.objectOf?]
  rw [ho]
  dsimp only
  cases key with
  | int index =>
    dsimp only
    cases position? items.length index <;> rfl
  | _ => rfl

/-- What is neither a mapping nor a list takes attributes only. One that is the host's own is set by
a call. -/
theorem on_set_attribute (call : Caller) {base : Value} (hbase : m.heap.entries? base = none)
    (hlist : ∀ items, m.heap.objectOf? base ≠ some (.list items)) (key value this : Value) :
    on (set call base key value this) m = match key with
      | .str name =>
        if m.heap.isForeign .set base name then
          on (do return (← call (.builtin (.attribute name .set)) [base, value]) == .bool true) m
        else on (Attribute.set base name value) m
      | _ => (.ok false, m) := by
  unfold set
  rw [Run.on_bind, Run.on_heap]
  dsimp only
  unfold Heap.entries? at hbase
  split
  · simp_all
  · simp_all
  · simp_all
  · simp_all
  · cases key with
    | str name =>
      dsimp only
      split <;> rfl
    | _ => rfl

end Ordinary

/-! ## References to ordinary slots -/

/-- Whether accesses are traced is said by the machine, and otherwise by the variable, if that can
be read. -/
theorem Run.on_tracing (m : Machine) :
    on tracing m = (match m.debug.or (Flag.read? m.debugVariable) with
      | some enabled => .ok enabled
      | none => .error (.fault (.badFlag "VPROP_DEBUG" m.debugVariable)), m) := by
  rw [tracing, on_bind, on_get]
  dsimp only
  cases m.debug with
  | some enabled => rfl
  | none => cases Flag.read? m.debugVariable <;> rfl

namespace Dispatch

/-- An ordinary access of a reference is carried out on the second machine: the access has been
noted, and the note leaves that machine. -/
def Reaches (word : String) (key : Value) (m m' : Machine) : Prop :=
  on (noteOrdinary word key) m = (.ok (), m')

/-- An ordinary access is noted, or ends where its key cannot be put into words or it is not known
whether accesses are traced. -/
theorem on_noteOrdinary (word : String) (key : Value) (m : Machine) :
    on (noteOrdinary word key) m = match m.heap.inspect key with
      | .error failure => (.error (.fault (Fault.unprintable failure)), m)
      | .ok shown =>
        match m.debug.or (Flag.read? m.debugVariable) with
        | none => (.error (.fault (.badFlag "VPROP_DEBUG" m.debugVariable)), m)
        | some false => (.ok (), m)
        | some true =>
          (.ok (), { m with
            trace := m.trace ++ [" ".intercalate ["[DBG]", word, "ordinary", shown]] }) := by
  have hinspect : on (Run.inspect key) m = (Run.ofPrintedResult (m.heap.inspect key), m) := by
    rw [Run.inspect, Run.on_bind, Run.on_heap]
    exact Run.on_ofPrinted _ m
  rw [noteOrdinary, Run.on_bind, hinspect]
  cases m.heap.inspect key with
  | error failure => rfl
  | ok shown =>
    dsimp only [Run.ofPrintedResult]
    rw [Run.note, Run.on_bind, Run.on_tracing]
    rcases m.debug.or (Flag.read? m.debugVariable) with _ | _ | _ <;> rfl

variable {word : String} {key : Value} {m m' : Machine}

/-- An access that is reached has a key that can be put into words, and its note is no more than a
line of the trace. -/
theorem Reaches.noted (hreach : Reaches word key m m') :
    ∃ trace, m' = { m with trace } ∧ ∃ shown, m.heap.inspect key = .ok shown := by
  rw [Reaches, on_noteOrdinary] at hreach
  cases hshown : m.heap.inspect key with
  | error failure =>
    rw [hshown] at hreach
    cases hreach
  | ok shown =>
    rw [hshown] at hreach
    dsimp only at hreach
    split at hreach
    · cases hreach
    · cases hreach
      exact ⟨m.trace, rfl, shown, rfl⟩
    · cases hreach
      exact ⟨_, rfl, shown, rfl⟩

/-- An access that is not reached ends with a fault that no refusal is. -/
theorem reaches_or_fails (word : String) (key : Value) (m : Machine) :
    (∃ m', Reaches word key m m') ∨ ∃ fault, on (noteOrdinary word key) m = (.error (.fault fault), m)
      ∧ fault.kind ≠ .strictWriteFailure ∧ fault.kind ≠ .strictDeleteFailure := by
  unfold Reaches
  rw [on_noteOrdinary]
  cases m.heap.inspect key with
  | error failure => exact .inr ⟨_, rfl, by cases failure <;> decide, by cases failure <;> decide⟩
  | ok shown =>
    dsimp only
    rcases m.debug.or (Flag.read? m.debugVariable) with _ | _ | _
    · exact .inr ⟨_, rfl, by simp [Fault.kind], by simp [Fault.kind]⟩
    · exact .inl ⟨_, rfl⟩
    · exact .inl ⟨_, rfl⟩

end Dispatch

end ChainScript
