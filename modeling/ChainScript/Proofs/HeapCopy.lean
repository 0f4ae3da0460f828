import Mathlib.Data.Option.Basic
import ChainScript.Proofs.Renaming
import ChainScript.Proofs.Step

/-!
# Copies of a heap inside another

`Heap.Copy ρ h h'` says that every object of `h` stands on `h'` at the place that `ρ` gives it, with
every object that it refers to renamed as well. What else stands on `h'` does not matter: everything
that can be learned from `h` through the values on it is learned alike from `h'` through the renamed
values. That is shown here for each way to look at a heap, and that making and changing objects on
both heaps keeps the one a copy of the other.

What a function of the host does cannot be renamed like data. Two host programs are copies of each
other if they make the same requests, and go on alike from answers that are renamed.
-/

namespace ChainScript

/-! ## Host functions -/

/-- Two host programs do the same, the second with renamed objects. -/
inductive HostProgram.Copy (ρ : Renaming) : HostProgram → HostProgram → Prop
  | answer (v : Value) : Copy ρ (.answer v) (.answer (rename ρ v))
  | raise (failure : HostFailure) : Copy ρ (.raise failure) (.raise failure)
  | get (base key this : Value) {next next' : Value → HostProgram}
    (hnext : ∀ v, Copy ρ (next v) (next' (rename ρ v))) :
    Copy ρ (.get base key this next) (.get (rename ρ base) (rename ρ key) (rename ρ this) next')
  | set (base key value this : Value) {next next' : Bool → HostProgram}
    (hnext : ∀ b, Copy ρ (next b) (next' b)) :
    Copy ρ (.set base key value this next)
      (.set (rename ρ base) (rename ρ key) (rename ρ value) (rename ρ this) next')
  | delete (base key : Value) {next next' : Bool → HostProgram}
    (hnext : ∀ b, Copy ρ (next b) (next' b)) :
    Copy ρ (.delete base key next) (.delete (rename ρ base) (rename ρ key) next')
  | chain (base resolver : Value) (strict : Bool) {next next' : Reference → HostProgram}
    (hnext : ∀ ref, Copy ρ (next ref) (next' (rename ρ ref))) :
    Copy ρ (.chain base resolver strict next)
      (.chain (rename ρ base) (rename ρ resolver) strict next')
  | binding (env name : Value) (strict : Bool) {next next' : Reference → HostProgram}
    (hnext : ∀ ref, Copy ρ (next ref) (next' (rename ρ ref))) :
    Copy ρ (.binding env name strict next) (.binding (rename ρ env) (rename ρ name) strict next')
  | read (ref : Reference) {next next' : Value → HostProgram}
    (hnext : ∀ v, Copy ρ (next v) (next' (rename ρ v))) :
    Copy ρ (.read ref next) (.read (rename ρ ref) next')
  | write (ref : Reference) (value : Value) {next next' : HostProgram} (hnext : Copy ρ next next') :
    Copy ρ (.write ref value next) (.write (rename ρ ref) (rename ρ value) next')
  | remove (ref : Reference) {next next' : Bool → HostProgram}
    (hnext : ∀ b, Copy ρ (next b) (next' b)) :
    Copy ρ (.remove ref next) (.remove (rename ρ ref) next')
  | call (f : Value) (arguments : List Value) {next next' : Value → HostProgram}
    (hnext : ∀ v, Copy ρ (next v) (next' (rename ρ v))) :
    Copy ρ (.call f arguments next) (.call (rename ρ f) (arguments.map (rename ρ)) next')
  | scope (parent : Value) {next next' : Value → HostProgram}
    (hnext : ∀ v, Copy ρ (next v) (next' (rename ρ v))) :
    Copy ρ (.scope parent next) (.scope (rename ρ parent) next')
  | run (env tree : Value) {next next' : Value → HostProgram}
    (hnext : ∀ v, Copy ρ (next v) (next' (rename ρ v))) :
    Copy ρ (.run env tree next) (.run (rename ρ env) (rename ρ tree) next')
  | record (name : Value) (arguments : List Value) {next next' : HostProgram}
    (hnext : Copy ρ next next') :
    Copy ρ (.record name arguments next) (.record (rename ρ name) (arguments.map (rename ρ)) next')
  | items (v : Value) {next next' : List Value → HostProgram}
    (hnext : ∀ vs, Copy ρ (next vs) (next' (vs.map (rename ρ)))) :
    Copy ρ (.items v next) (.items (rename ρ v) next')
  | refill (list : Value) (items : List Value) {next next' : HostProgram}
    (hnext : Copy ρ next next') :
    Copy ρ (.refill list items next) (.refill (rename ρ list) (items.map (rename ρ)) next')
  | attach (target onGet onSet onDelete : Value) {next next' : HostProgram}
    (hnext : Copy ρ next next') :
    Copy ρ (.attach target onGet onSet onDelete next)
      (.attach (rename ρ target) (rename ρ onGet) (rename ρ onSet) (rename ρ onDelete) next')
  | detach (target : Value) {next next' : Bool → HostProgram}
    (hnext : ∀ b, Copy ρ (next b) (next' b)) :
    Copy ρ (.detach target next) (.detach (rename ρ target) next')
  | suspend (once : Bool) (held : List Value) {body body' : HostProgram}
    {next next' : Value → HostProgram} (hbody : Copy ρ body body')
    (hnext : ∀ v, Copy ρ (next v) (next' (rename ρ v))) :
    Copy ρ (.suspend once held body next) (.suspend once (held.map (rename ρ)) body' next')

/-- Two host functions do the same, the second with renamed objects. -/
inductive Behaviour.Copy (ρ : Renaming) : Behaviour → Behaviour → Prop
  | arguments : Copy ρ .arguments .arguments
  | constant (v : Value) : Copy ρ (.constant v) (.constant (rename ρ v))
  | argument (i : Nat) : Copy ρ (.argument i) (.argument i)
  | count (calls : Nat) : Copy ρ (.count calls) (.count calls)
  | getSlot (key : Value) : Copy ρ (.getSlot key) (.getSlot (rename ρ key))
  | setSlot (key : Value) : Copy ρ (.setSlot key) (.setSlot (rename ρ key))
  | raise (failure : HostFailure) : Copy ρ (.raise failure) (.raise failure)
  | script (params : List String) (body : Value) :
    Copy ρ (.script params body) (.script params (rename ρ body))
  | program (held : List Value) {body body' : List Value → HostProgram}
    (hbody : ∀ vs, (body vs).Copy ρ (body' (vs.map (rename ρ)))) :
    Copy ρ (.program held body) (.program (held.map (rename ρ)) body')

/-! ## Objects -/

/-- Two objects are the same but for the places of the objects that they refer to. -/
inductive Object.Copy (ρ : Renaming) : Object → Object → Prop
  | record (kind : RecordClass) (slots : Slots) (parent : Option ObjectId) (frozen : Bool) :
    Copy ρ (.record kind slots parent frozen) (.record kind (rename ρ slots) (parent.map ρ) frozen)
  | list (items : List Value) : Copy ρ (.list items) (.list (items.map (rename ρ)))
  | tuple (items : List Value) : Copy ρ (.tuple items) (.tuple (items.map (rename ρ)))
  | dict (entries : Slots) : Copy ρ (.dict entries) (.dict (rename ρ entries))
  | proxy (entries : Slots) : Copy ρ (.proxy entries) (.proxy (rename ρ entries))
  | symbol (description : Option Value) :
    Copy ρ (.symbol description) (.symbol (description.map (rename ρ)))
  | accessor (getter setter : Option Value) :
    Copy ρ (.accessor getter setter) (.accessor (getter.map (rename ρ)) (setter.map (rename ρ)))
  | function (name : Option Value) (recorded : Bool) (kind : HostClass)
    {behaviour behaviour' : Behaviour} (hbehaviour : behaviour.Copy ρ behaviour') :
    Copy ρ (.function ⟨name, recorded, behaviour, kind⟩)
      (.function ⟨name.map (rename ρ), recorded, behaviour', kind⟩)
  | instance (kind : HostClass) : Copy ρ (.instance kind) (.instance kind)
  | store (entries : StoreEntries) : Copy ρ (.store entries) (.store (rename ρ entries))
  | weakStore (entries : StoreEntries) : Copy ρ (.weakStore entries) (.weakStore (rename ρ entries))
  | husk (data : Option Value) : Copy ρ (.husk data) (.husk (data.map (rename ρ)))
  | bound (target receiver : Option Value) :
    Copy ρ (.bound target receiver) (.bound (target.map (rename ρ)) (receiver.map (rename ρ)))
  | method (m : Method) : Copy ρ (.method m) (.method (rename ρ m))
  | iterator (source : IteratorSource) : Copy ρ (.iterator source) (.iterator (rename ρ source))
  | awaitable (once : Bool) (held : List Value) {body body' : HostProgram}
    (hbody : body.Copy ρ body') :
    Copy ρ (.awaitable once held body) (.awaitable once (held.map (rename ρ)) body')
  | environment (bindings : Slots) (parent : Option ObjectId) :
    Copy ρ (.environment bindings parent) (.environment (rename ρ bindings) (parent.map ρ))
  | reference (r : Reference) : Copy ρ (.reference r) (.reference (rename ρ r))
  | node (n : Node) : Copy ρ (.node n) (.node (rename ρ n))
  | library (evaluator : Option Value) :
    Copy ρ (.library evaluator) (.library (evaluator.map (rename ρ)))
  | evaluator (globals : ObjectId) : Copy ρ (.evaluator globals) (.evaluator (ρ globals))

/-- Two cells hold copies of one object with the same attributes. -/
structure Cell.Copy (ρ : Renaming) (c c' : Cell) : Prop where
  object : c.object.Copy ρ c'.object
  attributes : c'.attributes = rename ρ c.attributes

/-- Every object of the first heap stands on the second one, in its place. What is no object has the
same attributes on both, and classes have the same functions. -/
structure Heap.Copy (ρ : Renaming) (h h' : Heap) : Prop where
  cell : ∀ id, Option.Rel (Cell.Copy ρ) h.cells[id]? h'.cells[ρ id]?
  shared : ∀ v : Value, v.objectId? = none → h'.attributes v = rename ρ (h.attributes v)
  classPart : ∀ part, h'.classParts.find? part = (h.classParts.find? part).map (rename ρ)

variable {ρ : Renaming}

namespace Object.Copy

variable {o o' : Object}

/-- An object and its copy are of the same type. -/
theorem typeName_eq (c : o.Copy ρ o') : o'.typeName = o.typeName := by
  cases c with
  | iterator source => cases source <;> rfl
  | node n => simp [Object.typeName]
  | _ => rfl

/-- What an object keeps in places of its own is kept by its copy. -/
theorem kept?_eq (c : o.Copy ρ o') (name : String) :
    o'.kept? name = (o.kept? name).map (rename ρ) := by
  cases c with
  | function fname recorded kind hb =>
    by_cases hn : name = "__name__"
    · subst hn
      rfl
    · simp [Object.kept?, hn]
  | symbol | accessor | bound | library =>
    unfold Object.kept?
    split <;> simp_all
  | _ => rfl

/-- A copy with an attribute replaced is a copy. -/
theorem withKept (c : o.Copy ρ o') (name : String) (v : Option Value) :
    (o.withKept name v).Copy ρ (o'.withKept name (v.map (rename ρ))) := by
  cases c with
  | symbol description =>
    by_cases hd : name = "description"
    · subst hd
      exact .symbol v
    · simpa [Object.withKept, hd] using Object.Copy.symbol description
  | accessor getter setter =>
    by_cases hg : name = "get"
    · subst hg
      exact .accessor v setter
    · by_cases hs : name = "set"
      · subst hs
        exact .accessor getter v
      · simpa [Object.withKept, hg, hs] using Object.Copy.accessor getter setter
  | function fname recorded kind hb =>
    by_cases hn : name = "__name__"
    · subst hn
      exact .function v recorded kind hb
    · simpa [Object.withKept, hn] using Object.Copy.function fname recorded kind hb
  | library evaluator =>
    by_cases he : name = "evaluator"
    · subst he
      exact .library v
    · simpa [Object.withKept, he] using Object.Copy.library evaluator
  | bound target receiver =>
    by_cases ht : name = "target"
    · subst ht
      exact .bound v receiver
    · by_cases hr : name = "receiver"
      · subst hr
        exact .bound target v
      · simpa [Object.withKept, ht, hr] using Object.Copy.bound target receiver
  | record kind slots parent frozen => exact .record kind slots parent frozen
  | list items => exact .list items
  | tuple items => exact .tuple items
  | dict entries => exact .dict entries
  | proxy entries => exact .proxy entries
  | «instance» kind => exact .instance kind
  | store entries => exact .store entries
  | weakStore entries => exact .weakStore entries
  | husk data => exact .husk data
  | method m => exact .method m
  | iterator source => exact .iterator source
  | awaitable once held hbody => exact .awaitable once held hbody
  | environment bindings parent => exact .environment bindings parent
  | reference r => exact .reference r
  | node n => exact .node n
  | evaluator globals => exact .evaluator globals

/-- They take the same attributes. -/
theorem takesAttribute_eq (c : o.Copy ρ o') (name : String) :
    o'.takesAttribute name = o.takesAttribute name := by
  cases c <;> rfl

end Object.Copy

/-- What is no object has its attributes by the table of shared ones alone. -/
theorem Heap.attributes_of_shared {h h' : Heap}
    (hs : h'.sharedAttributes = h.sharedAttributes) {v : Value}
    (hv : v.objectId? = none) : h'.attributes v = h.attributes v := by
  cases v with
  | object id => cases hv
  | undefined | builtin f => simp only [Heap.attributes, hs]
  | _ => rfl

namespace Heap.Copy

variable {h h' : Heap}

/-- What stands in a place of the first heap stands as a copy in its place on the second. -/
theorem object? (hh : h.Copy ρ h') (id : ObjectId) :
    Option.Rel (Object.Copy ρ) (h.object? id) (h'.object? (ρ id)) := by
  have hcell := hh.cell id
  unfold Heap.object?
  revert hcell
  generalize h.cells[id]? = c, h'.cells[ρ id]? = c'
  rintro (⟨hcell⟩ | _)
  · exact .some hcell.object
  · exact .none

/-- What the copy of a value names is a copy of what the value names. -/
theorem objectOf? (hh : h.Copy ρ h') (v : Value) :
    Option.Rel (Object.Copy ρ) (h.objectOf? v) (h'.objectOf? (rename ρ v)) := by
  cases v with
  | object id => exact hh.object? id
  | _ => exact .none

/-- The attributes of a copy are the renamed attributes. -/
theorem attributes (hh : h.Copy ρ h') (v : Value) :
    h'.attributes (rename ρ v) = rename ρ (h.attributes v) := by
  cases v with
  | object id =>
    have hcell := hh.cell id
    simp only [rename_object, Heap.attributes]
    revert hcell
    generalize h.cells[id]? = c, h'.cells[ρ id]? = c'
    rintro (⟨hcell⟩ | _)
    · exact hcell.attributes
    · rfl
  | _ => exact hh.shared _ rfl

/-! ## Looking at objects -/

/-- The slots and the parent of a copy are the renamed ones. -/
theorem link? (hh : h.Copy ρ h') (id : ObjectId) :
    h'.link? (ρ id) = (h.link? id).map fun link => (rename ρ link.1, link.2.map ρ) := by
  have hc := hh.object? id
  unfold Heap.link?
  revert hc
  generalize h.object? id = o, h'.object? (ρ id) = o'
  rintro (⟨hc⟩ | _)
  · cases hc <;> rfl
  · rfl

/-- The copy of the owner of a key owns the renamed key. -/
theorem owner? (hh : h.Copy ρ h') (k : Key) (id : ObjectId) :
    h'.owner? (rename ρ k) (ρ id) = (h.owner? k id).map ρ := by
  induction id using Nat.strong_induction_on with
  | _ id ih =>
    rw [Heap.owner?, Heap.owner?, hh.link?]
    cases h.link? id with
    | none => rfl
    | some link =>
      obtain ⟨slots, parent⟩ := link
      simp only [Option.map_some, Table.contains_rename]
      by_cases hk : Table.contains slots k
      · rw [if_pos hk, if_pos hk]
        rfl
      · rw [if_neg hk, if_neg hk]
        cases parent with
        | none => rfl
        | some p =>
          simp only [Option.map_some, Renaming.apply_lt]
          by_cases hp : p < id
          · rw [if_pos hp, if_pos hp, ih p hp]
          · rw [if_neg hp, if_neg hp]
            rfl

/-- The value that a copy has of its own is the copy of the value. -/
theorem ownValue? (hh : h.Copy ρ h') (id : ObjectId) (k : Key) :
    h'.ownValue? (ρ id) (rename ρ k) = (h.ownValue? id k).map (rename ρ) := by
  unfold Heap.ownValue?
  rw [hh.link?]
  cases h.link? id with
  | none => rfl
  | some link => exact Slots.value?_rename ρ link.1 k

/-- What the owner of a key holds under it. -/
theorem slot? (hh : h.Copy ρ h') (k : Key) (id : ObjectId) :
    ((h'.owner? (rename ρ k) (ρ id)).bind fun owner => h'.ownValue? owner (rename ρ k))
      = ((h.owner? k id).bind fun owner => h.ownValue? owner k).map (rename ρ) := by
  rw [hh.owner?]
  cases h.owner? k id with
  | none => rfl
  | some owner => exact hh.ownValue? owner k

/-- The type of a value and of its copy are told by the same name. -/
theorem typeName (hh : h.Copy ρ h') (v : Value) : h'.typeName (rename ρ v) = h.typeName v := by
  cases v with
  | object id =>
    have hc := hh.object? id
    simp only [rename_object, Heap.typeName]
    revert hc
    generalize h.object? id = o, h'.object? (ρ id) = o'
    rintro (⟨hc⟩ | _)
    · exact hc.typeName_eq
    · rfl
  | _ => rfl

/-- A copy is a record where the original is. -/
theorem isRecord (hh : h.Copy ρ h') (v : Value) : h'.isRecord (rename ρ v) = h.isRecord v := by
  have hc := hh.objectOf? v
  unfold Heap.isRecord
  revert hc
  generalize h.objectOf? v = o, h'.objectOf? (rename ρ v) = o'
  rintro (⟨hc⟩ | _)
  · cases hc <;> rfl
  · rfl

/-- A copy is primitive where the original is. -/
theorem isPrimitive (hh : h.Copy ρ h') (v : Value) :
    h'.isPrimitive (rename ρ v) = h.isPrimitive v := by
  cases v with
  | object id =>
    have hc := hh.object? id
    simp only [rename_object, Heap.isPrimitive]
    revert hc
    generalize h.object? id = o, h'.object? (ρ id) = o'
    rintro (⟨hc⟩ | _)
    · cases hc <;> rfl
    · rfl
  | _ => rfl

/-- A copy can be called where the original can. -/
theorem isCallable (hh : h.Copy ρ h') (v : Value) :
    h'.isCallable (rename ρ v) = h.isCallable v := by
  cases v with
  | object id =>
    have hc := hh.object? id
    simp only [rename_object, Heap.isCallable]
    revert hc
    generalize h.object? id = o, h'.object? (ρ id) = o'
    rintro (⟨hc⟩ | _)
    · cases hc <;> rfl
    · rfl
  | _ => rfl

/-- A copy can stand behind a weak reference where the original can. -/
theorem isWeakReferable (hh : h.Copy ρ h') (v : Value) :
    h'.isWeakReferable (rename ρ v) = h.isWeakReferable v := by
  cases v with
  | object id =>
    have hc := hh.object? id
    simp only [rename_object, Heap.isWeakReferable]
    revert hc
    generalize h.object? id = o, h'.object? (ρ id) = o'
    rintro (⟨hc⟩ | _)
    · cases hc with
      | «instance» kind => rfl
      | iterator source => cases source <;> rfl
      | _ => rfl
    · rfl
  | _ => rfl

/-- A copy counts as true where the original does. -/
theorem isTruthy (hh : h.Copy ρ h') (v : Value) : h'.isTruthy (rename ρ v) = h.isTruthy v := by
  cases v with
  | object id =>
    have hc := hh.object? id
    simp only [rename_object, Heap.isTruthy]
    revert hc
    generalize h.object? id = o, h'.object? (ρ id) = o'
    rintro (⟨hc⟩ | _)
    · cases hc <;> simp
    · rfl
  | _ => rfl

/-- A copy is an instance of a class where the original is. -/
theorem isInstance (hh : h.Copy ρ h') (v : Value) (c : Class) :
    h'.isInstance (rename ρ v) c = h.isInstance v c := by
  have hc := hh.objectOf? v
  have hcallable := hh.isCallable v
  unfold Heap.isInstance
  revert hc
  generalize h.objectOf? v = o, h'.objectOf? (rename ρ v) = o'
  intro hc
  cases c with
  | callable => exact hcallable
  | str => cases v <;> rfl
  | host k => rcases hc with ⟨⟨⟩⟩ | _ <;> rfl
  | record k =>
    cases k with
    | plain =>
      rcases hc with ⟨hc⟩ | _
      · cases hc <;> rfl
      · rfl
    | own c =>
      rcases hc with ⟨hc⟩ | _
      · cases hc with
        | record kind slots parent frozen => cases kind <;> rfl
        | _ => rfl
      · rfl
  | _ => rcases hc with ⟨⟨⟩⟩ | _ <;> rfl

/-! ## Keys -/

/-- The keys of renamed values are those of the values, renamed. -/
theorem allKeys_rename (keyOf : Value → Option Key) {keyOf' : Value → Option Key} {vs : List Value}
    (hkey : ∀ v, keyOf' (rename ρ v) = (keyOf v).map (rename ρ)) :
    allKeys keyOf' (vs.map (rename ρ)) = (allKeys keyOf vs).map (List.map (rename ρ)) := by
  induction vs with
  | nil => rfl
  | cons v vs ih =>
    rw [List.map_cons, allKeys, allKeys, hkey, ih]
    cases keyOf v <;> cases allKeys keyOf vs <;> rfl

/-- The key of a copied object is the renamed key. -/
theorem objectKey? (hh : h.Copy ρ h') (id : ObjectId) :
    h'.objectKey? (ρ id) = (h.objectKey? id).map (rename ρ) := by
  induction id using Nat.strong_induction_on with
  | _ id ih =>
    have hc := hh.object? id
    rw [Heap.objectKey?, Heap.objectKey?]
    revert hc
    generalize h.object? id = o, h'.object? (ρ id) = o'
    rintro (⟨hc⟩ | _)
    · cases hc with
      | tuple items =>
        dsimp only
        rw [allKeys_rename _, Option.map_map, Option.map_map]
        · congr 1
          funext keys
          exact ofItems_rename ρ keys
        · intro v
          cases v with
          | object item =>
            simp only [rename_object, Renaming.apply_lt]
            by_cases hitem : item < id
            · rw [if_pos hitem, if_pos hitem, ih item hitem]
            · rw [if_neg hitem, if_neg hitem]
              rfl
          | _ => exact congrArg some (ofValue_rename ρ _)
      | _ => rfl
    · rfl

/-- The key of a copied value is the renamed key. -/
theorem keyOf? (hh : h.Copy ρ h') (v : Value) :
    h'.keyOf? (rename ρ v) = (h.keyOf? v).map (rename ρ) := by
  cases v with
  | object id => exact hh.objectKey? id
  | _ => exact congrArg some (ofValue_rename ρ _)

/-! ## Making and changing objects -/

variable {o o' : Object}

/-- What is no object is a copy wherever only objects were changed. -/
theorem shared_of_eq (hh : h.Copy ρ h') {h₁ h₁' : Heap}
    (hs : h₁.sharedAttributes = h.sharedAttributes)
    (hs' : h₁'.sharedAttributes = h'.sharedAttributes) (v : Value) (hv : v.objectId? = none) :
    h₁'.attributes v = rename ρ (h₁.attributes v) := by
  rw [attributes_of_shared hs hv, attributes_of_shared hs' hv]
  exact hh.shared v hv

/-- An object that is made on both heaps, in its place on the second one, is a copy as well. -/
theorem alloc (hh : h.Copy ρ h') (hc : o.Copy ρ o') (hplace : ρ h.size = h'.size) :
    (h.alloc o).2.Copy ρ (h'.alloc o').2 := by
  refine ⟨fun id => ?_, hh.shared_of_eq rfl rfl, hh.classPart⟩
  have hnew : ρ id = h'.cells.size ↔ id = h.cells.size := by
    unfold Heap.size at hplace
    rw [← hplace]
    exact ρ.apply_inj
  simp only [Heap.alloc, Array.getElem?_push]
  by_cases hid : id = h.cells.size
  · rw [if_pos hid, if_pos (hnew.mpr hid)]
    exact .some ⟨hc, rfl⟩
  · rw [if_neg hid, if_neg fun h => hid (hnew.mp h)]
    exact hh.cell id

/-- So is an object that is replaced on both heaps. -/
theorem put (hh : h.Copy ρ h') (hc : o.Copy ρ o') (id : ObjectId) :
    (h.put id o).Copy ρ (h'.put (ρ id) o') := by
  refine ⟨fun j => ?_, hh.shared_of_eq rfl rfl, hh.classPart⟩
  have hcell := hh.cell j
  simp only [Heap.put, Array.getElem?_modify, Renaming.apply_inj]
  by_cases hj : id = j
  · subst hj
    rw [if_pos rfl, if_pos rfl]
    revert hcell
    generalize h.cells[id]? = c, h'.cells[ρ id]? = c'
    rintro (⟨hcell⟩ | _)
    · exact .some ⟨hc, hcell.attributes⟩
    · exact .none
  · rw [if_neg hj, if_neg hj]
    exact hcell

/-- So do what is no object, where the attributes of one such value are replaced on both heaps. -/
theorem shared_putAttributes (hh : h.Copy ρ h') {v : Value} (hv : v = .undefined ∨ ∃ f, v = .builtin f)
    (attributes : Table String Value) (w : Value) (hw : w.objectId? = none) :
    (h'.putAttributes v (rename ρ attributes)).attributes w
      = rename ρ ((h.putAttributes v attributes).attributes w) := by
  by_cases hwv : w = v
  · subst hwv
    have hself : ∀ (h : Heap) (t : Table String Value), (h.putAttributes w t).attributes w = t :=
      fun h t => attributes_putAttributes_self t (hv.imp_right .inl)
    rw [hself, hself]
  · rw [attributes_putAttributes_of_ne _ _ hwv, attributes_putAttributes_of_ne _ _ hwv]
    exact hh.shared w hw

/-- Replacing the attributes of a value and of its copy keeps the heaps copies. -/
theorem putAttributes (hh : h.Copy ρ h') (v : Value) (attributes : Table String Value) :
    (h.putAttributes v attributes).Copy ρ (h'.putAttributes (rename ρ v) (rename ρ attributes)) := by
  cases v with
  | undefined => exact ⟨hh.cell, hh.shared_putAttributes (.inl rfl) attributes, hh.classPart⟩
  | builtin f => exact ⟨hh.cell, hh.shared_putAttributes (.inr ⟨f, rfl⟩) attributes, hh.classPart⟩
  | object id =>
    refine ⟨fun j => ?_, hh.shared_of_eq rfl rfl, hh.classPart⟩
    have hcell := hh.cell j
    simp only [Heap.putAttributes, rename_object, Array.getElem?_modify, Renaming.apply_inj]
    by_cases hj : id = j
    · subst hj
      rw [if_pos rfl, if_pos rfl]
      revert hcell
      generalize h.cells[id]? = c, h'.cells[ρ id]? = c'
      rintro (⟨hcell⟩ | _)
      · exact .some ⟨hcell.object, rfl⟩
      · exact .none
    · rw [if_neg hj, if_neg hj]
      exact hcell
  | _ => exact hh

end Heap.Copy

/-! ## Every heap has copies -/

/-- What there is for every argument can be had through renamed arguments. -/
theorem exists_along {α β γ : Type} {f : α → γ} (hf : Function.Injective f) {R : α → β → Prop}
    (b : β) (hR : ∀ a, ∃ b, R a b) : ∃ g : γ → β, ∀ a, R a (g (f a)) := by
  choose r hr using hR
  refine ⟨Function.extend f r fun _ => b, fun a => ?_⟩
  rw [hf.extend_apply]
  exact hr a

/-- Renaming keeps references apart. -/
theorem rename_reference_injective (ρ : Renaming) :
    Function.Injective (rename ρ : Reference → Reference) := by
  rintro ⟨base, name, this, strict, resolvable, isSuper⟩ ⟨base', name', this', _, _, _⟩ h
  injection h with hbase hname hthis
  have hname : name = name' := by
    cases name <;> cases name' <;> simp_all [rename_inj]
  simp_all [rename_inj]

/-- Every program of the host has a copy. The induction is on the program. -/
theorem HostProgram.exists_copy (ρ : Renaming) (p : HostProgram) : ∃ p', p.Copy ρ p' := by
  -- An operation that answers goes on from any answer. Renaming is injective, so the continuation
  -- of the copy is chosen at the renamed answers, and an answer that is none of those ends it.
  have hvalue := RenamedKey.rename_injective (α := Value) ρ
  have href := rename_reference_injective ρ
  have hnone := HostProgram.answer .null
  induction p with
  | answer v => exact ⟨_, .answer v⟩
  | raise failure => exact ⟨_, .raise failure⟩
  | get base key this next ih =>
    obtain ⟨next', hnext⟩ := exists_along hvalue hnone ih
    exact ⟨_, .get base key this hnext⟩
  | set base key value this next ih =>
    choose next' hnext using ih
    exact ⟨_, .set base key value this hnext⟩
  | delete base key next ih =>
    choose next' hnext using ih
    exact ⟨_, .delete base key hnext⟩
  | chain base resolver strict next ih =>
    obtain ⟨next', hnext⟩ := exists_along href hnone ih
    exact ⟨_, .chain base resolver strict hnext⟩
  | binding env name strict next ih =>
    obtain ⟨next', hnext⟩ := exists_along href hnone ih
    exact ⟨_, .binding env name strict hnext⟩
  | read ref next ih =>
    obtain ⟨next', hnext⟩ := exists_along hvalue hnone ih
    exact ⟨_, .read ref hnext⟩
  | write ref value next ih =>
    obtain ⟨next', hnext⟩ := ih
    exact ⟨_, .write ref value hnext⟩
  | remove ref next ih =>
    choose next' hnext using ih
    exact ⟨_, .remove ref hnext⟩
  | call f arguments next ih =>
    obtain ⟨next', hnext⟩ := exists_along hvalue hnone ih
    exact ⟨_, .call f arguments hnext⟩
  | scope parent next ih =>
    obtain ⟨next', hnext⟩ := exists_along hvalue hnone ih
    exact ⟨_, .scope parent hnext⟩
  | run env tree next ih =>
    obtain ⟨next', hnext⟩ := exists_along hvalue hnone ih
    exact ⟨_, .run env tree hnext⟩
  | record name arguments next ih =>
    obtain ⟨next', hnext⟩ := ih
    exact ⟨_, .record name arguments hnext⟩
  | items v next ih =>
    obtain ⟨next', hnext⟩ := exists_along (List.map_injective_iff.mpr hvalue) hnone ih
    exact ⟨_, .items v hnext⟩
  | refill list items next ih =>
    obtain ⟨next', hnext⟩ := ih
    exact ⟨_, .refill list items hnext⟩
  | attach target onGet onSet onDelete next ih =>
    obtain ⟨next', hnext⟩ := ih
    exact ⟨_, .attach target onGet onSet onDelete hnext⟩
  | detach target next ih =>
    choose next' hnext using ih
    exact ⟨_, .detach target hnext⟩
  | suspend once held body next ihbody ih =>
    obtain ⟨body', hbody⟩ := ihbody
    obtain ⟨next', hnext⟩ := exists_along hvalue hnone ih
    exact ⟨_, .suspend once held hbody hnext⟩

/-- So has every behaviour. -/
theorem Behaviour.exists_copy (ρ : Renaming) (b : Behaviour) : ∃ b', b.Copy ρ b' := by
  cases b with
  | arguments => exact ⟨_, .arguments⟩
  | constant v => exact ⟨_, .constant v⟩
  | argument i => exact ⟨_, .argument i⟩
  | count calls => exact ⟨_, .count calls⟩
  | getSlot key => exact ⟨_, .getSlot key⟩
  | setSlot key => exact ⟨_, .setSlot key⟩
  | raise failure => exact ⟨_, .raise failure⟩
  | script params body => exact ⟨_, .script params body⟩
  | program held body =>
    have hmap : Function.Injective (List.map (rename ρ : Value → Value)) :=
      List.map_injective_iff.mpr (RenamedKey.rename_injective ρ)
    obtain ⟨body', hbody⟩ := exists_along hmap (HostProgram.answer .null)
      fun vs => HostProgram.exists_copy ρ (body vs)
    exact ⟨_, .program held hbody⟩

/-- So has every object. -/
theorem Object.exists_copy (ρ : Renaming) (o : Object) : ∃ o', o.Copy ρ o' := by
  cases o with
  | record kind slots parent frozen => exact ⟨_, .record kind slots parent frozen⟩
  | list items => exact ⟨_, .list items⟩
  | tuple items => exact ⟨_, .tuple items⟩
  | dict entries => exact ⟨_, .dict entries⟩
  | proxy entries => exact ⟨_, .proxy entries⟩
  | symbol description => exact ⟨_, .symbol description⟩
  | accessor getter setter => exact ⟨_, .accessor getter setter⟩
  | function f =>
    obtain ⟨behaviour', hbehaviour⟩ := f.behaviour.exists_copy ρ
    exact ⟨_, .function f.name f.recorded f.kind hbehaviour⟩
  | «instance» kind => exact ⟨_, .instance kind⟩
  | store entries => exact ⟨_, .store entries⟩
  | weakStore entries => exact ⟨_, .weakStore entries⟩
  | bound target receiver => exact ⟨_, .bound target receiver⟩
  | husk data => exact ⟨_, .husk data⟩
  | method m => exact ⟨_, .method m⟩
  | iterator source => exact ⟨_, .iterator source⟩
  | awaitable once held body =>
    obtain ⟨body', hbody⟩ := body.exists_copy ρ
    exact ⟨_, .awaitable once held hbody⟩
  | environment bindings parent => exact ⟨_, .environment bindings parent⟩
  | reference r => exact ⟨_, .reference r⟩
  | node n => exact ⟨_, .node n⟩
  | library evaluator => exact ⟨_, .library evaluator⟩
  | evaluator globals => exact ⟨_, .evaluator globals⟩

/-- Wherever its objects are to stand, a heap has a copy with its objects there. -/
theorem Heap.exists_copy (ρ : Renaming) (h : Heap) : ∃ h', h.Copy ρ h' := by
  have hcell : ∀ id : ObjectId, ∃ c' : Cell, ∀ c, h.cells[id]? = some c → c.Copy ρ c' := by
    intro id
    cases h.cells[id]? with
    | none => exact ⟨default, fun c hc => nomatch hc⟩
    | some c =>
      obtain ⟨o', ho⟩ := c.object.exists_copy ρ
      refine ⟨⟨o', rename ρ c.attributes⟩, ?_⟩
      rintro _ ⟨⟩
      exact ⟨ho, rfl⟩
  obtain ⟨cellAt, hcellAt⟩ := exists_along ρ.injective default hcell
  have hshared : ∀ v : Value, v.objectId? = none →
      ((rename ρ h.sharedAttributes).find? v).getD .empty
        = rename ρ ((h.sharedAttributes.find? v).getD .empty) := by
    intro v hv
    have hfind := Table.find?_rename ρ h.sharedAttributes v
    rw [(rename_eq_iff ρ hv).mpr rfl] at hfind
    rw [hfind]
    cases h.sharedAttributes.find? v <;> rfl
  refine ⟨⟨Array.ofFn fun j : Fin (ρ h.size) => cellAt j, rename ρ h.sharedAttributes,
    rename ρ h.classParts⟩, fun id => ?_, fun v hv => ?_, Table.find?_rename ρ h.classParts⟩
  swap
  · cases v with
    | object id => cases hv
    | undefined | builtin f => exact hshared _ rfl
    | _ => rfl
  rw [Array.getElem?_ofFn]
  cases hc : h.cells[id]? with
  | none =>
    rw [dif_neg]
    · exact .none
    · rw [Renaming.apply_lt]
      exact Nat.not_lt.mpr (Array.getElem?_eq_none_iff.mp hc)
  | some c =>
    have hid : ρ id < ρ h.size := by
      rw [Renaming.apply_lt]
      exact (Array.getElem?_eq_some_iff.mp hc).1
    rw [dif_pos hid]
    exact .some (hcellAt id c hc)

end ChainScript
