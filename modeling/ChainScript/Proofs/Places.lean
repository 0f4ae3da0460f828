import ChainScript.Proofs.HandlerSearch
import ChainScript.Proofs.OrdinaryAccess

/-!
# The places that keys name

Whatever the base is, a primitive key names at most one place of it: the entry under the key, the
item at a position, or the attribute of a name. Keys that are equal as keys name one entry, and an
index and its negative form name one item. `Ordinary.held?` is what the base itself holds in a
place, and the accesses are stated by it: a read gives it, a write replaces it, and a delete takes
it away.

`DiffersAt` says that two heaps differ at most in what one base holds in one place. One lemma for
each way to write, by entry, item or attribute, says that a write makes no more difference.
-/

namespace ChainScript

open Run (on)

/-- Where a base can hold something of its own. -/
inductive Place where
  | entry (k : Key)
  | item (i : Nat)
  | attr (name : String)

namespace Ordinary

/-- The place of a base that a primitive key names. -/
def place? (h : Heap) (base key : Value) : Option Place :=
  if (h.entries? base).isSome then some (.entry (.ofValue key))
  else match key, sequence? h base with
    | .int index, some items => (position? items.length index).map .item
    | .str name, _ => some (.attr name)
    | _, _ => none

/-- What a base itself holds in a place. -/
def held? (h : Heap) (base : Value) : Place → Option Given
  | .entry k => ((h.entries? base).bind fun entries => Slots.value? entries k).map .value
  | .item i => ((sequence? h base).bind fun items => items[i]?).map .value
  | .attr name => Attribute.find? h base name

/-- Every primitive names an entry of a base that has entries. -/
theorem place?_of_entries? {h : Heap} {base : Value} {entries : Slots}
    (hentries : h.entries? base = some entries) (key : Value) :
    place? h base key = some (.entry (.ofValue key)) := by
  unfold place?
  rw [hentries]
  rfl

/-- Of other bases, numbers name items and texts name attributes. -/
theorem place?_of_entries?_none {h : Heap} {base : Value} (hentries : h.entries? base = none)
    (key : Value) :
    place? h base key = match key, sequence? h base with
      | .int index, some items => (position? items.length index).map .item
      | .str name, _ => some (.attr name)
      | _, _ => none := by
  unfold place?
  rw [hentries]
  rfl

/-- A position is denoted by the index that counts from the start and by the one that counts from
the end. -/
theorem position?_eq_some_iff {length i : Nat} {index : Int} :
    position? length index = some i ↔ i < length ∧ (index = i ∨ index = i - length) := by
  unfold position?
  split
  · split
    · rw [Option.some.injEq]
      omega
    · constructor
      · nofun
      · omega
  · split
    · rw [Option.some.injEq]
      omega
    · constructor
      · nofun
      · omega

/-- What has entries is no sequence. -/
theorem sequence?_eq_none_of_entries? {h : Heap} {base : Value} {entries : Slots}
    (hentries : h.entries? base = some entries) : sequence? h base = none := by
  cases base with
  | object id =>
    unfold Heap.entries? at hentries
    simp only [sequence?]
    generalize h.objectOf? (.object id) = o at hentries ⊢
    split at hentries <;> first | rfl | cases hentries
  | _ => cases hentries

/-- A list has no entries and is a sequence. -/
theorem sequence?_list {h : Heap} {id : ObjectId} {items : List Value}
    (ho : h.object? id = some (.list items)) : sequence? h (.object id) = some items := by
  simp [sequence?, Heap.objectOf?, ho]

end Ordinary

open Ordinary (place? held? sequence? position?)

/-- What has entries has no other attributes than those that were set on it. -/
theorem Attribute.find?_of_entries? {h : Heap} {base : Value} {entries : Slots}
    (hentries : h.entries? base = some entries) (name : String) :
    find? h base name = ((h.attributes base).find? name).map .value := by
  unfold find?
  cases (h.attributes base).find? name with
  | some found => rfl
  | none =>
    cases base with
    | object id =>
      unfold Heap.entries? Heap.objectOf? at hentries
      dsimp only at hentries ⊢
      generalize h.object? id = o at hentries ⊢
      split at hentries <;> first | rfl | cases hentries
    | _ => cases hentries

/-- What classes give does not depend on what the objects are. -/
@[simp] theorem Given.settled_put (h : Heap) (id : ObjectId) (o : Object) (given : Given) :
    given.settled (h.put id o) = given.settled h := by
  cases given <;> rfl

/-- Nor does it depend on the attributes that were set on them. -/
@[simp] theorem Given.settled_putAttributes (h : Heap) (v : Value) (attributes : Table String Value)
    (given : Given) : given.settled (h.putAttributes v attributes) = given.settled h := by
  cases given with
  | part p => cases v <;> rfl
  | _ => rfl

/-- What an object shows of the attributes of the function that it belongs to, if it is a method. -/
def Object.lent? (h : Heap) (name : String) : Object → Option Given
  | .method m => ((h.attributes (h.functionOf m)).find? name).map .value
  | _ => none

/-- What stands under the name of an attribute of an object. -/
theorem Attribute.find?_object {h : Heap} {id : ObjectId} {o : Object} (ho : h.object? id = some o)
    (name : String) :
    find? h (.object id) name = match (h.attributes (.object id)).find? name with
      | some found => some (.value found)
      | none =>
        match o.kept? name with
        | some found => found.map .value
        | none =>
          match o.given? id name with
          | some given => some (given.settled h)
          | none => o.lent? h name := by
  unfold find?
  dsimp only
  rw [ho]
  cases o <;> rfl

namespace Object

/-- An attribute that was replaced has its value. -/
theorem kept?_withKept_self {o : Object} {name : String} (hkept : (o.kept? name).isSome = true)
    (v : Option Value) : (o.withKept name v).kept? name = some v := by
  unfold kept? at hkept
  split at hkept <;> first | rfl | cases hkept

/-- All others are kept as they were. -/
theorem kept?_withKept_of_ne {name other : String} (hother : other ≠ name) (o : Object)
    (v : Option Value) : (o.withKept name v).kept? other = o.kept? other := by
  unfold withKept
  split <;> (unfold kept?; split <;> simp_all)

/-- Replacing an attribute changes nothing about what the type gives. -/
theorem given?_withKept (o : Object) (name : String) (v : Option Value) (id : ObjectId)
    (other : String) : (o.withKept name v).given? id other = o.given? id other := by
  unfold withKept
  split <;> rfl

end Object

/-- What keeps an attribute in a place of its own has neither entries nor items. -/
theorem Ordinary.unkeyed_of_kept {h : Heap} {id : ObjectId} {o : Object} {name : String}
    (ho : h.object? id = some o) (hkept : (o.kept? name).isSome = true) :
    h.entries? (.object id) = none ∧ sequence? h (.object id) = none := by
  unfold Object.kept? at hkept
  split at hkept
  all_goals first
    | simp [Heap.entries?, sequence?, Heap.objectOf?, ho]; done
    | cases hkept

/-! ## Reading a place -/

namespace Ordinary

variable {m : Machine} {base key v : Value} {place : Place}

/-- What a base holds in the place that a key names stands under the key among its entries, if it
has any. -/
theorem value?_of_held? {h : Heap} {entries : Slots} (hentries : h.entries? base = some entries)
    (hplace : place? h base key = some place) (hheld : held? h base place = some (.value v)) :
    Slots.value? entries (.ofValue key) = some v := by
  rw [place?_of_entries? hentries] at hplace
  cases hplace
  rw [held?, hentries, Option.bind_some, Option.map_eq_some_iff] at hheld
  obtain ⟨w, hw, heq⟩ := hheld
  cases heq
  exact hw

/-- Whether the host looks after what a key names: an attribute, and no entry or item, that is the
host's own. -/
def foreign (h : Heap) (kind : AccessKind) (base key : Value) : Bool :=
  match h.entries? base, key with
  | none, .str name => h.isForeign kind base name
  | _, _ => false

/-- A read from a base without entries gives the item or the attribute that the key names. -/
theorem on_get_of_held?_unkeyed (call : Caller) (hentries : m.heap.entries? base = none)
    (hown : foreign m.heap .get base key = false)
    (hplace : place? m.heap base key = some place) (hheld : held? m.heap base place = some (.value v))
    (this : Value) : on (get call base key this) m = (.ok v, m) := by
  rw [on_get_of_entries?_none call hentries]
  rw [place?_of_entries?_none hentries] at hplace
  cases key with
  | int index =>
    cases hitems : sequence? m.heap base with
    | none =>
      rw [hitems] at hplace
      cases hplace
    | some items =>
      rw [hitems] at hplace
      obtain ⟨i, hi, rfl⟩ := Option.map_eq_some_iff.mp hplace
      rw [held?, hitems, Option.bind_some, Option.map_eq_some_iff] at hheld
      obtain ⟨w, hw, heq⟩ := hheld
      cases heq
      dsimp only
      rw [hi, Option.bind_some, hw]
      rfl
  | str name =>
    cases hplace
    rw [held?] at hheld
    unfold foreign at hown
    rw [hentries] at hown
    dsimp only at hown ⊢
    rw [if_neg (Bool.eq_false_iff.mp hown), Run.on_bind, Attribute.on_get, hheld]
    rfl
  | _ => cases hplace

/-- A read gives what the base itself holds in the place that the key names, unless that is an
accessor. -/
theorem on_get_of_held? (call : Caller) (hkey : m.heap.isPrimitive key = true)
    (hown : foreign m.heap .get base key = false) (hplace : place? m.heap base key = some place)
    (hheld : held? m.heap base place = some (.value v))
    (hplain : m.heap.isRecord base = true → accessor? m.heap v = none) (this : Value) :
    on (get call base key this) m = (.ok v, m) := by
  have hk := Heap.keyOf?_of_isPrimitive hkey
  cases m.heap.base base with
  | @record id kind slots parent frozen hbase ho =>
    subst hbase
    have hvalue := value?_of_held? (Heap.entries?_record ho) hplace hheld
    have hslot : m.heap.ownValue? id (.ofValue key) = some v := by
      simp [Heap.ownValue?, Heap.link?, ho, hvalue]
    have hrecord : m.heap.isRecord (.object id) = true := by
      simp [Heap.isRecord, Heap.objectOf?, ho]
    rw [on_get_record call ho hk, Heap.owner?_self hslot, Option.bind_some, hslot]
    dsimp only
    rw [hplain hrecord]
  | dict hbase ho =>
    subst hbase
    rw [on_get_mapping call (.inl ho) hk, value?_of_held? (Heap.entries?_dict ho) hplace hheld]
    rfl
  | proxy hbase ho =>
    subst hbase
    rw [on_get_mapping call (.inr ho) hk, value?_of_held? (Heap.entries?_proxy ho) hplace hheld]
    rfl
  | list hbase ho =>
    subst hbase
    exact on_get_of_held?_unkeyed call (Heap.entries?_list ho) hown hplace hheld this
  | other hentries hlist => exact on_get_of_held?_unkeyed call hentries hown hplace hheld this

end Ordinary

/-! ## Heaps that differ in one place -/

/-- An object without what it holds in places. -/
def Object.shell : Object → Object
  | .record kind _ parent frozen => .record kind .empty parent frozen
  | .list _ => .list []
  | .dict _ => .dict .empty
  | .symbol _ => .symbol none
  | .accessor _ _ => .accessor none none
  | .function f => .function { f with name := none }
  | .bound _ _ => .bound none none
  | .library _ => .library none
  | o => o

/-- Replacing an attribute leaves the rest of an object. -/
theorem Object.shell_withKept (o : Object) (name : String) (v : Option Value) :
    (o.withKept name v).shell = o.shell := by
  unfold withKept
  split <;> rfl

/-- Two heaps differ at most in what a base holds in a place. -/
structure DiffersAt (base : Value) (place : Place) (h h' : Heap) : Prop where
  /-- There are as many objects. -/
  size_eq : h'.size = h.size
  /-- All but the base are the same and have the same attributes. -/
  elsewhere : ∀ other, other ≠ base →
    h'.objectOf? other = h.objectOf? other ∧ h'.attributes other = h.attributes other
  /-- The functions of classes are the same. -/
  classParts_eq : h'.classParts = h.classParts
  /-- The base is the same but for what it holds. -/
  shell_eq : (h'.objectOf? base).map Object.shell = (h.objectOf? base).map Object.shell
  /-- It holds the same in all other places. -/
  held : ∀ other, other ≠ place → held? h' base other = held? h base other
  /-- Keys name the same places of it. -/
  named : place? h' base = place? h base
  /-- If it is a sequence, it is as long as it was. -/
  length_eq : (sequence? h' base).map List.length = (sequence? h base).map List.length

namespace DiffersAt

variable {h h' : Heap} {base key : Value} {place : Place} {id : ObjectId}

/-- A heap differs nowhere from itself. -/
theorem refl (base : Value) (place : Place) (h : Heap) : DiffersAt base place h h :=
  ⟨rfl, fun _ _ => ⟨rfl, rfl⟩, rfl, rfl, fun _ _ => rfl, rfl, rfl⟩

/-- A base that is a record was one before. -/
theorem isRecord_eq (hd : DiffersAt base place h h') : h'.isRecord base = h.isRecord base := by
  have hshell := hd.shell_eq
  unfold Heap.isRecord
  generalize h'.objectOf? base = o' at hshell ⊢
  generalize h.objectOf? base = o at hshell ⊢
  rcases o with _ | o
  · rcases o' with _ | o'
    · rfl
    · cases hshell
  · rcases o' with _ | o'
    · cases hshell
    · cases o <;> cases o' <;> first | rfl | cases hshell

/-- What is no accessor beside a record is none afterwards. -/
theorem accessor?_eq_none (hd : DiffersAt base place h h') (hrecord : h'.isRecord base = true)
    {v : Value} (hv : Ordinary.accessor? h v = none) : Ordinary.accessor? h' v = none := by
  unfold Ordinary.accessor? at hv ⊢
  by_cases hbase : v = base
  · subst hbase
    unfold Heap.isRecord at hrecord
    split at hrecord
    · rename_i ho
      rw [ho]
    · cases hrecord
  · rw [(hd.elsewhere v hbase).1]
    exact hv

/-- A key that names the place is as primitive as it was. -/
theorem isPrimitive (hd : DiffersAt base place h h') (hplace : place? h base key = some place)
    (hkey : h.isPrimitive key = true) : h'.isPrimitive key = true := by
  cases key with
  | object j =>
    by_cases hbase : Value.object j = base
    · -- A symbol is no base in which another value than a text or a number names a place.
      subst hbase
      unfold Heap.isPrimitive at hkey
      dsimp only at hkey
      split at hkey
      · rename_i ho
        simp [place?, Heap.entries?, Heap.objectOf?, ho] at hplace
      · cases hkey
    · have hsame : h'.object? j = h.object? j := (hd.elsewhere _ hbase).1
      unfold Heap.isPrimitive at hkey ⊢
      dsimp only at hkey ⊢
      rw [hsame]
      exact hkey
  | _ => exact hkey

/-- Replacing an object leaves all others alone. -/
theorem elsewhere_put (h : Heap) (id : ObjectId) (o : Object) (other : Value)
    (hother : other ≠ .object id) :
    (h.put id o).objectOf? other = h.objectOf? other
      ∧ (h.put id o).attributes other = h.attributes other := by
  cases other with
  | object j =>
    have hj : j ≠ id := fun heq => hother (congrArg Value.object heq)
    refine ⟨?_, h.attributes_put id j o⟩
    rw [Heap.objectOf?, Heap.object?_put, if_neg hj]
    rfl
  | _ => exact ⟨rfl, rfl⟩

/-- Replacing an object leaves as many objects. -/
theorem size_put (h : Heap) (id : ObjectId) (o : Object) : (h.put id o).size = h.size := by
  simp [Heap.put, Heap.size]

/-- What replaces an object is the same but for what it holds, if the two objects are. -/
theorem shell_put {old o : Object} (ho : h.object? id = some old) (hshell : o.shell = old.shell) :
    ((h.put id o).objectOf? (.object id)).map Object.shell
      = (h.objectOf? (.object id)).map Object.shell := by
  rw [Heap.objectOf?, Heap.objectOf?, Heap.object?_put_self ho, ho, Option.map_some, Option.map_some,
    hshell]

/-- Replacing the entries of an object makes a difference under one key, if they are the same under
all others. -/
theorem entries {old o : Object} {k : Key} {slots slots' : Slots} (ho : h.object? id = some old)
    (hentries : h.entries? (.object id) = some slots)
    (hentries' : (h.put id o).entries? (.object id) = some slots') (hshell : o.shell = old.shell)
    (hslots : ∀ j, j ≠ k → Slots.value? slots' j = Slots.value? slots j) :
    DiffersAt (.object id) (.entry k) h (h.put id o) where
  size_eq := size_put h id o
  elsewhere := elsewhere_put h id o
  classParts_eq := rfl
  shell_eq := shell_put ho hshell
  held other hother := by
    cases other with
    | entry j =>
      have hj : j ≠ k := fun heq => hother (congrArg Place.entry heq)
      rw [held?, held?, hentries, hentries', Option.bind_some, Option.bind_some, hslots j hj]
    | item i =>
      rw [held?, held?, Ordinary.sequence?_eq_none_of_entries? hentries,
        Ordinary.sequence?_eq_none_of_entries? hentries']
    | attr name =>
      rw [held?, held?, Attribute.find?_of_entries? hentries, Attribute.find?_of_entries? hentries',
        h.attributes_put]
  named := by
    funext key
    rw [Ordinary.place?_of_entries? hentries, Ordinary.place?_of_entries? hentries']
  length_eq := by
    rw [Ordinary.sequence?_eq_none_of_entries? hentries,
      Ordinary.sequence?_eq_none_of_entries? hentries']

/-- Replacing an item of a list makes a difference at its position. -/
theorem item {items : List Value} (ho : h.object? id = some (.list items)) (i : Nat) (v : Value) :
    DiffersAt (.object id) (.item i) h (h.put id (.list (items.set i v))) := by
  have ho' := Heap.object?_put_self ho (.list (items.set i v))
  have hseq := Ordinary.sequence?_list ho
  have hseq' := Ordinary.sequence?_list ho'
  have hentries := Heap.entries?_list ho
  have hentries' := Heap.entries?_list ho'
  refine ⟨size_put h id _, elsewhere_put h id _, rfl, shell_put ho rfl, fun other hother => ?_, ?_, ?_⟩
  · cases other with
    | entry k => rw [held?, held?, hentries, hentries']
    | item j =>
      have hj : i ≠ j := fun heq => hother (congrArg Place.item heq.symm)
      rw [held?, held?, hseq, hseq', Option.bind_some, Option.bind_some, List.getElem?_set_ne hj]
    | attr name =>
      rw [held?, held?, Attribute.find?_object ho, Attribute.find?_object ho', h.attributes_put]
      rfl
  · funext key
    rw [Ordinary.place?_of_entries?_none hentries, Ordinary.place?_of_entries?_none hentries',
      hseq, hseq']
    cases key with
    | int index =>
      dsimp only
      rw [List.length_set]
    | _ => rfl
  · rw [hseq, hseq', Option.map_some, Option.map_some, List.length_set]

/-- Replacing an attribute makes a difference under its name, where the object keeps it in a place
of its own. -/
theorem kept {o : Object} {name : String} (ho : h.object? id = some o)
    (hkept : (o.kept? name).isSome = true) (v : Option Value) :
    DiffersAt (.object id) (.attr name) h (h.put id (o.withKept name v)) := by
  have ho' := Heap.object?_put_self ho (o.withKept name v)
  have hkept' : ((o.withKept name v).kept? name).isSome = true := by
    rw [Object.kept?_withKept_self hkept]
    rfl
  obtain ⟨hentries, hseq⟩ := Ordinary.unkeyed_of_kept ho hkept
  obtain ⟨hentries', hseq'⟩ := Ordinary.unkeyed_of_kept ho' hkept'
  refine ⟨size_put h id _, elsewhere_put h id _, rfl, shell_put ho (o.shell_withKept name v),
    fun other hother => ?_, ?_, ?_⟩
  · cases other with
    | entry k => rw [held?, held?, hentries, hentries']
    | item j => rw [held?, held?, hseq, hseq']
    | attr other =>
      have hname : other ≠ name := fun heq => hother (congrArg Place.attr heq)
      rw [held?, held?, Attribute.find?_object ho, Attribute.find?_object ho', h.attributes_put,
        Object.kept?_withKept_of_ne hname, Object.given?_withKept]
      -- No method keeps an attribute, so none shows those of its function here.
      have hlent : ∀ h, o.lent? h other = none ∧ (o.withKept name v).lent? h other = none := by
        intro h
        unfold Object.kept? at hkept
        split at hkept <;> first | exact ⟨rfl, rfl⟩ | cases hkept
      simp only [hlent, Given.settled_put]
  · funext key
    rw [Ordinary.place?_of_entries?_none hentries, Ordinary.place?_of_entries?_none hentries',
      hseq, hseq']
  · rw [hseq, hseq']

/-- Entering an attribute makes a difference under its name. -/
theorem attr {base : Value}
    (hbase : base = .undefined ∨ (∃ f, base = .builtin f) ∨ (h.objectOf? base).isSome = true)
    (hmethod : ∀ m, h.objectOf? base ≠ some (.method m)) (name : String) (v : Value) :
    DiffersAt base (.attr name) h (h.putAttributes base ((h.attributes base).insert name v)) := by
  generalize hattributes : (h.attributes base).insert name v = attributes
  -- Attributes are kept beside the objects, so entries and items stand as they did, and only the
  -- lookup of attributes is left to compare.
  have hobject : ∀ other, (h.putAttributes base attributes).objectOf? other = h.objectOf? other := by
    intro other
    cases other with
    | object id => exact h.object?_putAttributes base attributes id
    | _ => rfl
  have hentries : (h.putAttributes base attributes).entries? base = h.entries? base := by
    unfold Heap.entries?
    rw [hobject]
  have hseq : sequence? (h.putAttributes base attributes) base = sequence? h base := by
    unfold sequence?
    simp only [hobject]
  refine ⟨?_, fun other hother => ⟨hobject other, h.attributes_putAttributes_of_ne attributes hother⟩,
    ?_, by rw [hobject], fun other hother => ?_, ?_, ?_⟩
  · cases base <;> simp [Heap.putAttributes, Heap.size]
  · cases base <;> rfl
  · cases other with
    | entry k => rw [held?, held?, hentries]
    | item j => rw [held?, held?, hseq]
    | attr other =>
      have hname : other ≠ name := fun heq => hother (congrArg Place.attr heq)
      rw [held?, held?]
      unfold Attribute.find?
      rw [Heap.attributes_putAttributes_self attributes hbase, ← hattributes, Table.find?_insert,
        if_neg hname]
      cases (h.attributes base).find? other with
      | some found => rfl
      | none =>
        cases base with
        | object id =>
          dsimp only
          rw [Heap.object?_putAttributes]
          cases ho : h.object? id with
          | none => rfl
          | some o =>
            simp only [Given.settled_putAttributes]
            cases o with
            | method m => exact (hmethod m ho).elim
            | _ => rfl
        | _ => rfl
  · funext key
    unfold place?
    rw [hentries, hseq]
  · rw [hseq]

end DiffersAt

end ChainScript
