import Mathlib.Data.List.Nodup
import Mathlib.Order.Monotone.Basic
import ChainScript.Runner

/-!
# Renaming objects

The identity of an object is its place on the heap, and which place that is depends on everything
that was made before it, also by others. A `Renaming` takes every object from its place on one heap
to its place on another. It keeps the order in which objects were made and leaves the reserved
symbols alone, because these stand first on every heap.

`rename` applies a renaming to all that programs and faults are made of. Whatever holds no object
stays as it is.
-/

namespace ChainScript

/-- Where the objects of one heap stand on another. -/
structure Renaming where
  place : ObjectId → ObjectId
  strictMono : StrictMono place
  place_symbol : ∀ kind : AccessKind, place kind.symbol = kind.symbol

/-- What objects can be renamed in. -/
class Renamed (α : Type) where
  rename : Renaming → α → α

export Renamed (rename)

/-- What can be a key: different keys stay different. -/
class RenamedKey (α : Type) extends Renamed α where
  rename_injective : ∀ ρ, Function.Injective (rename ρ)

namespace Renaming

instance : CoeFun Renaming fun _ => ObjectId → ObjectId := ⟨place⟩

variable (ρ : Renaming)

/-- No two objects have the same place. -/
theorem injective : Function.Injective ρ := ρ.strictMono.injective

/-- A reserved symbol keeps its place. -/
@[simp] theorem apply_symbol (kind : AccessKind) : ρ kind.symbol = kind.symbol :=
  ρ.place_symbol kind

/-- Places are the same where the objects are. -/
@[simp] theorem apply_inj {i j : ObjectId} : ρ i = ρ j ↔ i = j := ρ.injective.eq_iff

/-- Places are in the order of the objects. -/
@[simp] theorem apply_lt {i j : ObjectId} : ρ i < ρ j ↔ i < j := ρ.strictMono.lt_iff_lt

end Renaming

namespace Renamed

/-- What holds no object stays as it is. -/
abbrev still (α : Type) : Renamed α := ⟨fun _ a => a⟩

end Renamed

variable {α β κ ν : Type} (ρ : Renaming)

/-! ## Data -/

instance : Renamed Bool := .still _
instance : Renamed PUnit := .still _
instance : Renamed String := .still _
instance : Renamed Class := .still _
instance : Renamed ClassPart := .still _

/-- Renaming leaves a truth value as it is. -/
@[simp] theorem rename_bool (b : Bool) : rename ρ b = b := rfl

/-- Renaming leaves the answer of an action that has none as it is. -/
@[simp] theorem rename_punit (u : PUnit) : rename ρ u = u := rfl

/-- Renaming leaves a text as it is. -/
@[simp] theorem rename_string (s : String) : rename ρ s = s := rfl

/-- Renaming leaves a class as it is. -/
@[simp] theorem rename_class (c : Class) : rename ρ c = c := rfl

/-- Renaming leaves a part of a class as it is. -/
@[simp] theorem rename_classPart (part : ClassPart) : rename ρ part = part := rfl

instance : RenamedKey String := ⟨fun _ _ _ h => h⟩
instance : RenamedKey Class := ⟨fun _ _ _ h => h⟩
instance : RenamedKey ClassPart := ⟨fun _ _ _ h => h⟩

instance [Renamed α] : Renamed (Option α) := ⟨fun ρ => Option.map (rename ρ)⟩
instance [Renamed α] : Renamed (List α) := ⟨fun ρ => List.map (rename ρ)⟩
instance [Renamed α] [Renamed β] : Renamed (α × β) := ⟨fun ρ => Prod.map (rename ρ) (rename ρ)⟩

/-- What may be absent is renamed where it is there. -/
@[simp] theorem rename_option [Renamed α] (o : Option α) : rename ρ o = o.map (rename ρ) := rfl

/-- A list is renamed item by item. -/
@[simp] theorem rename_list [Renamed α] (l : List α) : rename ρ l = l.map (rename ρ) := rfl

/-- A pair is renamed in both halves. -/
@[simp] theorem rename_prod [Renamed α] [Renamed β] (a : α) (b : β) :
    rename ρ (a, b) = (rename ρ a, rename ρ b) := rfl

/-- The first half of a renamed pair is the first half, renamed. -/
@[simp] theorem fst_rename [Renamed α] [Renamed β] (p : α × β) :
    (rename ρ p).1 = rename ρ p.1 := rfl

/-- The second half of a renamed pair is the second half, renamed. -/
@[simp] theorem snd_rename [Renamed α] [Renamed β] (p : α × β) :
    (rename ρ p).2 = rename ρ p.2 := rfl

/-- Renaming keeps apart what can be looked up. -/
theorem rename_inj [RenamedKey α] {a b : α} : rename ρ a = rename ρ b ↔ a = b :=
  (RenamedKey.rename_injective ρ).eq_iff

/-! ## Values and keys -/

instance : Renamed Value where
  rename ρ
    | .object id => .object (ρ id)
    | v => v

/-- Null stays null. -/
@[simp] theorem rename_null : rename ρ Value.null = .null := rfl

/-- Undefined stays undefined. -/
@[simp] theorem rename_undefined : rename ρ Value.undefined = .undefined := rfl

/-- A truth value stays the same value. -/
@[simp] theorem rename_boolValue (b : Bool) : rename ρ (Value.bool b) = .bool b := rfl

/-- A whole number stays the same value. -/
@[simp] theorem rename_int (n : Int) : rename ρ (Value.int n) = .int n := rfl

/-- A number that need not be whole stays the same value. -/
@[simp] theorem rename_float (x : Binary64) : rename ρ (Value.float x) = .float x := rfl

/-- A text stays the same value. -/
@[simp] theorem rename_str (s : String) : rename ρ (Value.str s) = .str s := rfl

/-- A class stays the same value. -/
@[simp] theorem rename_type (c : Class) : rename ρ (Value.type c) = .type c := rfl

/-- A function of the host stays the same value. -/
@[simp] theorem rename_builtin (f : Builtin) : rename ρ (Value.builtin f) = .builtin f := rfl

/-- An object is named by its place. -/
@[simp] theorem rename_object (id : ObjectId) : rename ρ (Value.object id) = .object (ρ id) := rfl

instance : RenamedKey Value where
  rename_injective ρ v w h := by
    cases v <;> cases w <;> simp_all

instance : Renamed Method where
  rename ρ
    | .store receiver operation => .store (ρ receiver) operation
    | .part receiver part => .part (rename ρ receiver) part
    | .library receiver function => .library (ρ receiver) function

/-- A method of a store belongs to the renamed store. -/
@[simp] theorem rename_storeMethod (id : ObjectId) (operation : StoreOperation) :
    rename ρ (Method.store id operation) = .store (ρ id) operation := rfl

/-- A method of a class belongs to the renamed value. -/
@[simp] theorem rename_partMethod (v : Value) (part : ClassPart) :
    rename ρ (Method.part v part) = .part (rename ρ v) part := rfl

/-- A function of a library belongs to the renamed library. -/
@[simp] theorem rename_libraryMethod (id : ObjectId) (f : LibraryFunction) :
    rename ρ (Method.library id f) = .library (ρ id) f := rfl

/-- Renaming leaves the name of a method as it is. -/
@[simp] theorem name_rename_method (m : Method) : (rename ρ m).name = m.name := by
  cases m <;> rfl

/-- What a renamed method belongs to is what it belonged to, renamed. -/
@[simp] theorem receiver_rename (m : Method) : (rename ρ m).receiver = rename ρ m.receiver := by
  cases m <;> rfl

instance : RenamedKey Method where
  rename_injective ρ m n h := by
    cases m <;> cases n <;> simp_all [rename_inj]

namespace Key

/-- The key of the same value after a renaming. -/
def renamed (ρ : Renaming) : Key → Key
  | .object id => .object (ρ id)
  | .method m => .method (rename ρ m)
  | .cons head tail => .cons (head.renamed ρ) (tail.renamed ρ)
  | k => k

/-- Renaming keeps keys apart. -/
theorem renamed_injective : Function.Injective (Key.renamed ρ) := by
  intro k
  induction k with
  | cons head tail ihead itail =>
    intro l h
    cases l <;> simp only [Key.renamed] at h
    case cons head' tail' =>
      injection h with hhead htail
      rw [ihead hhead, itail htail]
    all_goals cases h
  | method m =>
    intro l h
    cases l <;> simp only [Key.renamed] at h
    case method n =>
      injection h with h
      rw [(rename_inj ρ).mp h]
    all_goals cases h
  | object id =>
    intro l h
    cases l <;> simp_all [Key.renamed]
  | _ =>
    intro l h
    cases l <;> simp_all [Key.renamed]

end Key

instance : RenamedKey Key where
  rename := Key.renamed
  rename_injective := Key.renamed_injective

/-- The key of null stays the same. -/
@[simp] theorem rename_nullKey : rename ρ Key.null = .null := rfl

/-- The key of a text stays the same. -/
@[simp] theorem rename_strKey (s : String) : rename ρ (Key.str s) = .str s := rfl

/-- The key of an object is that of its place. -/
@[simp] theorem rename_objectKey (id : ObjectId) : rename ρ (Key.object id) = .object (ρ id) := rfl

/-- The key of a method is that of the renamed method. -/
@[simp] theorem rename_methodKey (m : Method) : rename ρ (Key.method m) = .method (rename ρ m) := rfl

/-- The key of no items stays the same. -/
@[simp] theorem rename_nilKey : rename ρ Key.nil = .nil := rfl

/-- The key of items is renamed item by item. -/
@[simp] theorem rename_consKey (k l : Key) :
    rename ρ (Key.cons k l) = .cons (rename ρ k) (rename ρ l) := rfl

/-- The key of a number holds no object. -/
@[simp] theorem rename_ofFloat (x : Binary64) : rename ρ (Key.ofFloat x) = Key.ofFloat x := by
  unfold Key.ofFloat
  split <;> rfl

/-- The key of a renamed value is the renamed key. -/
@[simp] theorem ofValue_rename (v : Value) : Key.ofValue (rename ρ v) = rename ρ (Key.ofValue v) := by
  cases v with
  | float x => exact (rename_ofFloat ρ x).symm
  | _ => rfl

/-- The key of renamed items is the renamed key. -/
@[simp] theorem ofItems_rename (keys : List Key) :
    Key.ofItems (keys.map (rename ρ)) = rename ρ (Key.ofItems keys) := by
  induction keys with
  | nil => rfl
  | cons k ks ih => exact congrArg (Key.cons (rename ρ k)) ih

/-- Renaming makes nothing null or undefined, and nothing else of them. -/
@[simp] theorem isNullish_rename (v : Value) : (rename ρ v).isNullish = v.isNullish := by
  cases v <;> rfl

/-- A store keeps a renamed value under the renamed key. -/
@[simp] theorem storeKey_rename (v : Value) : storeKey (rename ρ v) = rename ρ (storeKey v) := by
  cases v with
  | float x =>
    simp only [rename_float, storeKey]
    split <;> rfl
  | _ => rfl

/-- A value that is no object is found again as it is. -/
theorem rename_eq_iff {v w : Value} (hw : w.objectId? = none) : rename ρ v = w ↔ v = w := by
  cases v with
  | object id => cases w <;> simp_all [Value.objectId?]
  | _ => exact Iff.rfl

/-- Only null is renamed to null. -/
@[simp] theorem rename_eq_null {v : Value} : rename ρ v = .null ↔ v = .null := rename_eq_iff ρ rfl

/-- Only undefined is renamed to undefined. -/
@[simp] theorem rename_eq_undefined {v : Value} : rename ρ v = .undefined ↔ v = .undefined :=
  rename_eq_iff ρ rfl

/-! ## Tables -/

namespace Table

variable [RenamedKey κ] [Renamed ν]

instance : Renamed (Table κ ν) where
  rename ρ t := {
    entries := rename ρ t.entries
    nodup := by
      have hkeys : (rename ρ t.entries).map Prod.fst = (t.entries.map Prod.fst).map (rename ρ) := by
        simp [Function.comp_def]
      rw [hkeys]
      exact List.Nodup.map (RenamedKey.rename_injective ρ) t.nodup }

/-- A table is renamed entry by entry. -/
theorem entries_rename (t : Table κ ν) : (rename ρ t).entries = rename ρ t.entries := rfl

/-- The empty table stays empty. -/
@[simp] theorem rename_empty : rename ρ (empty : Table κ ν) = empty := rfl

/-- Renaming leaves no table empty that was not. -/
@[simp] theorem isEmpty_rename (t : Table κ ν) : (rename ρ t).isEmpty = t.isEmpty := by
  simp [isEmpty, entries_rename]

/-- A renamed table has as many entries. -/
@[simp] theorem size_rename (t : Table κ ν) : (rename ρ t).size = t.size := by
  simp [size, entries_rename]

/-- The values of a renamed table are the values, renamed. -/
@[simp] theorem values_rename (t : Table κ ν) : (rename ρ t).values = t.values.map (rename ρ) := by
  simp [values, entries_rename, Function.comp_def]

variable [DecidableEq κ]

/-- Looking up a renamed key gives the renamed value. -/
@[simp] theorem find?_rename (t : Table κ ν) (k : κ) :
    (rename ρ t).find? (rename ρ k) = (t.find? k).map (rename ρ) := by
  unfold find?
  rw [entries_rename]
  induction t.entries with
  | nil => rfl
  | cons entry rest ih =>
    obtain ⟨a, v⟩ := entry
    have hcons : rename ρ ((a, v) :: rest) = (rename ρ a, rename ρ v) :: rename ρ rest := rfl
    rw [hcons]
    by_cases hk : k = a
    · subst hk
      rw [lookup_cons_self, lookup_cons_self]
      rfl
    · rw [lookup_cons_ne hk, lookup_cons_ne fun h => hk ((rename_inj ρ).mp h), ih]

/-- A renamed table has a renamed key where the table has the key. -/
@[simp] theorem contains_rename (t : Table κ ν) (k : κ) :
    (rename ρ t).contains (rename ρ k) = t.contains k := by
  simp [contains]

/-- Entering and renaming commute. -/
@[simp] theorem insert_rename (t : Table κ ν) (k : κ) (v : ν) :
    (rename ρ t).insert (rename ρ k) (rename ρ v) = rename ρ (t.insert k v) := by
  have hkeys : rename ρ k ∈ (rename ρ t).entries.map Prod.fst ↔ k ∈ t.entries.map Prod.fst := by
    have hmap : (rename ρ t).entries.map Prod.fst = (t.entries.map Prod.fst).map (rename ρ) := by
      simp [entries_rename, Function.comp_def]
    rw [hmap]
    exact List.mem_map_of_injective (RenamedKey.rename_injective ρ)
  apply eq_of_entries
  rw [entries_rename]
  unfold insert
  by_cases hk : k ∈ t.entries.map Prod.fst
  · rw [dif_pos hk, dif_pos (hkeys.mpr hk)]
    simp only [replaceEntry, entries_rename, rename_list, List.map_map]
    refine List.map_congr_left fun entry _ => ?_
    by_cases ha : entry.1 = k
    · simp [ha]
    · simp [ha, rename_inj]
  · rw [dif_neg hk, dif_neg fun h => hk (hkeys.mp h)]
    simp [entries_rename]

/-- Removing and renaming commute. -/
@[simp] theorem erase_rename (t : Table κ ν) (k : κ) :
    (rename ρ t).erase (rename ρ k) = rename ρ (t.erase k) := by
  apply eq_of_entries
  rw [entries_rename]
  simp only [erase, entries_rename, rename_list, List.filter_map]
  congr 1
  refine List.filter_congr fun entry _ => ?_
  simp [rename_inj]

end Table

/-! ## Slots and stores -/

instance : Renamed Slot := ⟨fun ρ slot => ⟨rename ρ slot.label, rename ρ slot.value⟩⟩

/-- A slot is renamed in its label and its value. -/
@[simp] theorem rename_slot (label v : Value) :
    rename ρ (Slot.mk label v) = ⟨rename ρ label, rename ρ v⟩ := rfl

/-- The label of a renamed slot is the label, renamed. -/
@[simp] theorem label_rename (slot : Slot) : (rename ρ slot).label = rename ρ slot.label := rfl

/-- The value of a renamed slot is the value, renamed. -/
@[simp] theorem value_rename (slot : Slot) : (rename ρ slot).value = rename ρ slot.value := rfl

namespace Slots

/-- The value under a renamed key is the value, renamed. -/
@[simp] theorem value?_rename (slots : Slots) (k : Key) :
    value? (rename ρ slots) (rename ρ k) = (value? slots k).map (rename ρ) := by
  simp [value?, Function.comp_def]

/-- Writing a slot and renaming commute. -/
@[simp] theorem put_rename (slots : Slots) (k : Key) (label v : Value) :
    put (rename ρ slots) (rename ρ k) (rename ρ label) (rename ρ v)
      = rename ρ (put slots k label v) := by
  unfold put
  rw [← Table.insert_rename, Table.find?_rename]
  cases slots.find? k <;> rfl

/-- The labels of renamed slots are the labels, renamed. -/
@[simp] theorem labels_rename (slots : Slots) :
    labels (rename ρ slots) = (labels slots).map (rename ρ) := by
  simp [labels, Function.comp_def]

end Slots

namespace StoreEntries

/-- The value that renamed entries have under a renamed key is the value, renamed. -/
@[simp] theorem value?_rename (entries : StoreEntries) (key : Value) :
    value? (rename ρ entries) (rename ρ key) = (value? entries key).map (rename ρ) := by
  simp [value?, Function.comp_def]

/-- Entering a value in a store and renaming commute. -/
@[simp] theorem put_rename (entries : StoreEntries) (key v : Value) :
    put (rename ρ entries) (rename ρ key) (rename ρ v) = rename ρ (put entries key v) := by
  unfold put
  rw [← Table.insert_rename, storeKey_rename]
  rfl

end StoreEntries

instance : Renamed IteratorSource where
  rename ρ
    | .snapshot items => .snapshot (rename ρ items)
    | .storeKeys store size => .storeKeys (ρ store) size
    | .storeValues store size => .storeValues (ρ store) size

/-! ## References -/

instance : Renamed AccessedName where
  rename ρ
    | .ordinary key => .ordinary (rename ρ key)
    | .virtual resolver => .virtual (rename ρ resolver)
    | .binding name => .binding (rename ρ name)

instance : Renamed Reference where
  rename ρ ref := {
    ref with
    base := rename ρ ref.base
    name := rename ρ ref.name
    thisValue := rename ρ ref.thisValue }

/-- An ordinary name is renamed as the key that it is. -/
@[simp] theorem rename_ordinary (key : Value) :
    rename ρ (AccessedName.ordinary key) = .ordinary (rename ρ key) := rfl

/-- A virtual name is renamed as the resolver that it is. -/
@[simp] theorem rename_virtual (resolver : Value) :
    rename ρ (AccessedName.virtual resolver) = .virtual (rename ρ resolver) := rfl

/-- The name of a binding is renamed as a value. -/
@[simp] theorem rename_binding (name : Value) :
    rename ρ (AccessedName.binding name) = .binding (rename ρ name) := rfl

section

variable (ref : Reference)

/-- The base of a renamed reference is the base, renamed. -/
@[simp] theorem base_rename : (rename ρ ref).base = rename ρ ref.base := rfl

/-- The name of a renamed reference is the name, renamed. -/
@[simp] theorem name_rename : (rename ρ ref).name = rename ρ ref.name := rfl

/-- The receiver of a renamed reference is the receiver, renamed. -/
@[simp] theorem thisValue_rename : (rename ρ ref).thisValue = rename ρ ref.thisValue := rfl

/-- A renamed reference is as strict. -/
@[simp] theorem strict_rename : (rename ρ ref).strict = ref.strict := rfl

/-- A renamed reference is resolvable where the reference is. -/
@[simp] theorem resolvable_rename : (rename ρ ref).resolvable = ref.resolvable := rfl

/-- A renamed reference goes to a member of the parent where the reference does. -/
@[simp] theorem isSuper_rename : (rename ρ ref).isSuper = ref.isSuper := rfl

/-- A renamed reference is virtual where the reference is. -/
@[simp] theorem isVirtual_rename : (rename ρ ref).isVirtual = ref.isVirtual := by
  unfold Reference.isVirtual
  rw [name_rename]
  cases ref.name <;> rfl

end

/-! ## Nodes -/

namespace Node

mutual

/-- The node with every object in it renamed. -/
def renamed (ρ : Renaming) : Node → Node
  | .literal v loc => .literal (rename ρ v) (rename ρ loc)
  | .identifier name loc => .identifier (rename ρ name) (rename ρ loc)
  | .member obj name loc =>
    .member (obj.renamed ρ) (rename ρ name) (rename ρ loc)
  | .index obj key loc => .index (obj.renamed ρ) (key.renamed ρ) (rename ρ loc)
  | .chain obj resolver loc => .chain (obj.renamed ρ) (resolver.renamed ρ) (rename ρ loc)
  | .superMember name loc => .superMember (rename ρ name) (rename ρ loc)
  | .assign target v loc => .assign (target.renamed ρ) (v.renamed ρ) (rename ρ loc)
  | .delete target loc => .delete (target.renamed ρ) (rename ρ loc)
  | .call callee args loc => .call (callee.renamed ρ) (renamedAll ρ args) (rename ρ loc)
  | .objectLiteral entries loc => .objectLiteral (renamedEntries ρ entries) (rename ρ loc)
  | .program body strict loc => .program (renamedAll ρ body) strict (rename ρ loc)
  | .other kind loc => .other kind (rename ρ loc)
  | .value v => .value (rename ρ v)
  | .list items => .list (renamedAll ρ items)

/-- The nodes with every object in them renamed. -/
def renamedAll (ρ : Renaming) : List Node → List Node
  | [] => []
  | n :: ns => n.renamed ρ :: renamedAll ρ ns

/-- The entries of an object literal with every object in them renamed. -/
def renamedEntries (ρ : Renaming) : List (Value × Node) → List (Value × Node)
  | [] => []
  | (name, n) :: rest => (rename ρ name, n.renamed ρ) :: renamedEntries ρ rest

end

instance : Renamed Node := ⟨Node.renamed⟩

/-- Nodes in a row are renamed one by one. -/
theorem renamedAll_eq (ns : List Node) : renamedAll ρ ns = ns.map (rename ρ) := by
  induction ns with
  | nil => rfl
  | cons n ns ih => rw [renamedAll, ih]; rfl

/-- The entries of an object literal are renamed one by one. -/
theorem renamedEntries_eq (entries : List (Value × Node)) :
    renamedEntries ρ entries = entries.map (rename ρ) := by
  induction entries with
  | nil => rfl
  | cons entry rest ih => rw [renamedEntries, ih]; rfl

section

variable (loc : Option Location)

/-- A literal is renamed in its value. -/
@[simp] theorem rename_literal (v : Value) :
    rename ρ (literal v loc) = literal (rename ρ v) (rename ρ loc) := rfl

/-- An identifier is renamed in its name. -/
@[simp] theorem rename_identifier (name : Value) :
    rename ρ (identifier name loc)
      = identifier (rename ρ name) (rename ρ loc) := rfl

/-- A member is renamed in its object and its name. -/
@[simp] theorem rename_member (obj : Node) (name : Value) :
    rename ρ (member obj name loc)
      = member (rename ρ obj) (rename ρ name) (rename ρ loc) := rfl

/-- An index is renamed in its operands. -/
@[simp] theorem rename_index (obj key : Node) :
    rename ρ (index obj key loc)
      = index (rename ρ obj) (rename ρ key) (rename ρ loc) := rfl

/-- A chain is renamed in its operands. -/
@[simp] theorem rename_chain (obj resolver : Node) :
    rename ρ (chain obj resolver loc)
      = chain (rename ρ obj) (rename ρ resolver) (rename ρ loc) := rfl

/-- A member of the parent is renamed in its name. -/
@[simp] theorem rename_superMember (name : Value) :
    rename ρ (superMember name loc)
      = superMember (rename ρ name) (rename ρ loc) := rfl

/-- An assignment is renamed in its target and its value. -/
@[simp] theorem rename_assign (target v : Node) :
    rename ρ (assign target v loc)
      = assign (rename ρ target) (rename ρ v) (rename ρ loc) := rfl

/-- A delete is renamed in its target. -/
@[simp] theorem rename_delete (target : Node) :
    rename ρ (delete target loc)
      = delete (rename ρ target) (rename ρ loc) := rfl

/-- A call is renamed in its callee and its arguments. -/
@[simp] theorem rename_call (callee : Node) (args : List Node) :
    rename ρ (call callee args loc)
      = call (rename ρ callee) (args.map (rename ρ)) (rename ρ loc) := by
  rw [← renamedAll_eq]; rfl

/-- An object literal is renamed entry by entry. -/
@[simp] theorem rename_objectLiteral (entries : List (Value × Node)) :
    rename ρ (objectLiteral entries loc)
      = objectLiteral (entries.map (rename ρ)) (rename ρ loc) := by
  rw [← renamedEntries_eq]; rfl

/-- A program is renamed statement by statement. -/
@[simp] theorem rename_program (body : List Node) (strict : Bool) :
    rename ρ (program body strict loc)
      = program (body.map (rename ρ)) strict (rename ρ loc) := by
  rw [← renamedAll_eq]; rfl

/-- A node of another kind has nothing but its place in the text to rename. -/
@[simp] theorem rename_other (kind : String) :
    rename ρ (other kind loc) = other kind (rename ρ loc) := rfl

/-- A value in the place of a node is renamed as a value. -/
@[simp] theorem rename_value (v : Value) :
    rename ρ (value v) = value (rename ρ v) := rfl

/-- A list in the place of a node is renamed item by item. -/
@[simp] theorem rename_listNode (items : List Node) :
    rename ρ (list items) = list (items.map (rename ρ)) := by
  rw [← renamedAll_eq]; rfl

end

variable (n : Node)

/-- A renamed node is of the same kind. -/
@[simp] theorem kind?_rename : (rename ρ n).kind? = n.kind? := by
  cases n <;> rfl

/-- The place in the text of a renamed node is the place, renamed. -/
@[simp] theorem loc_rename : (rename ρ n).loc = rename ρ n.loc := by
  cases n <;> rfl

/-- A renamed node is a reference where the node is. -/
@[simp] theorem isReference_rename : (rename ρ n).isReference = n.isReference := by
  cases n <;> rfl

/-- A renamed node is a program where the node is. -/
@[simp] theorem isProgram_rename : (rename ρ n).isProgram = n.isProgram := by
  cases n <;> rfl

/-- Making a program of a node and renaming commute. -/
@[simp] theorem toProgram_rename : (rename ρ n).toProgram = rename ρ n.toProgram := by
  unfold toProgram
  rw [isProgram_rename]
  split
  · rfl
  · simp

end Node

/-! ## Faults and reports -/

instance : Renamed Subject where
  rename ρ
    | .value v => .value (rename ρ v)
    | .reference ref => .reference (rename ρ ref)
    | .node n => .node (rename ρ n)

instance : Renamed TreeFault where
  rename ρ
    | .noNumberText tree => .noNumberText (rename ρ tree)
    | .notProperty tree => .notProperty (rename ρ tree)
    | .notName tree => .notName (rename ρ tree)
    | .unknownTag tag => .unknownTag (rename ρ tag)
    | fault => fault

/-- The fault of a tree that has not one child stays the same. -/
@[simp] theorem rename_notOneChild (tag : String) (count : Nat) :
    rename ρ (TreeFault.notOneChild tag count) = .notOneChild tag count := rfl

/-- The fault of a tree that has not two operands stays the same. -/
@[simp] theorem rename_notTwoOperands (tag : String) (count : Nat) :
    rename ρ (TreeFault.notTwoOperands tag count) = .notTwoOperands tag count := rfl

/-- The fault of a number without a text is renamed in its tree. -/
@[simp] theorem rename_noNumberText (tree : Value) :
    rename ρ (TreeFault.noNumberText tree) = .noNumberText (rename ρ tree) := rfl

/-- The fault of a tree that is no property is renamed in the tree. -/
@[simp] theorem rename_notProperty (tree : Value) :
    rename ρ (TreeFault.notProperty tree) = .notProperty (rename ρ tree) := rfl

/-- The fault of a tree that is no name is renamed in the tree. -/
@[simp] theorem rename_notName (tree : Value) :
    rename ρ (TreeFault.notName tree) = .notName (rename ρ tree) := rfl

/-- The fault of an unknown tag is renamed in the tag. -/
@[simp] theorem rename_unknownTag (tag : Value) :
    rename ρ (TreeFault.unknownTag tag) = .unknownTag (rename ρ tag) := rfl

namespace Fault

/-- The fault with every object in it renamed. -/
def renamed (ρ : Renaming) : Fault → Fault
  | .tree fault => .tree (rename ρ fault)
  | .inaccessible name base => .inaccessible (rename ρ name) (rename ρ base)
  | .notBase v => .notBase (rename ρ v)
  | .noParent name node => .noParent (rename ρ name) (rename ρ node)
  | .superDelete subject => .superDelete (rename ρ subject)
  | .unbound name ref => .unbound (rename ρ name) (rename ρ ref)
  | .unboundWrite name ref => .unboundWrite (rename ρ name) (rename ρ ref)
  | .writeRefused key ref => .writeRefused (rename ρ key) (rename ρ ref)
  | .deleteRefused key ref => .deleteRefused (rename ρ key) (rename ρ ref)
  | .handlerNotFunction resolver kind bySymbol =>
    .handlerNotFunction (rename ρ resolver) kind bySymbol
  | .noHandler resolver kind => .noHandler (rename ρ resolver) kind
  | .keyNotPrimitive v => .keyNotPrimitive (rename ρ v)
  | .notCallable v => .notCallable (rename ρ v)
  | .badAssignTarget node => .badAssignTarget (rename ρ node)
  | .notReference node => .notReference (rename ρ node)
  | .unknownNode node => .unknownNode (rename ρ node)
  | .attachTarget v => .attachTarget (rename ρ v)
  | .attachHandler v => .attachHandler (rename ρ v)
  | .weakPrimitive v => .weakPrimitive (rename ρ v)
  | .weakUnsupported v => .weakUnsupported (rename ρ v)
  | .freezeTarget v => .freezeTarget (rename ρ v)
  | .badPrototype v => .badPrototype (rename ρ v)
  | .keysTarget v => .keysTarget (rename ρ v)
  | .unknownExtension name => .unknownExtension (rename ρ name)
  | .flagNotBool name v => .flagNotBool name (rename ρ v)
  | .extensionsNotList v => .extensionsNotList (rename ρ v)
  | .messageLost cause failure => .messageLost (cause.renamed ρ) failure
  | fault => fault

end Fault

instance : Renamed Fault := ⟨Fault.renamed⟩

/-- A renamed fault is of the same kind. -/
@[simp] theorem Fault.kind_rename (fault : Fault) : (rename ρ fault).kind = fault.kind := by
  cases fault with
  | tree fault => cases fault <;> rfl
  | _ => rfl

/-- A renamed fault is a refusal where the fault is. -/
@[simp] theorem Fault.isRefusal_rename (fault : Fault) : (rename ρ fault).isRefusal = fault.isRefusal := by
  cases fault with
  | messageLost cause failure => cases cause <;> rfl
  | _ => rfl

instance : Renamed Stop where
  rename ρ
    | .fault cause => .fault (rename ρ cause)
    | .outside detour => .outside detour

/-- A run that ends with a fault ends with the renamed fault. -/
@[simp] theorem rename_fault (fault : Fault) :
    rename ρ (Stop.fault fault) = .fault (rename ρ fault) := rfl

/-- A run that ends outside ends there when it is renamed. -/
@[simp] theorem rename_outside (detour : Option Detour) :
    rename ρ (Stop.outside detour) = .outside detour := rfl

instance : Renamed Outcome where
  rename ρ
    | .success v => .success (rename ρ v)
    | .failure kind message loc => .failure kind message (rename ρ loc)

instance : Renamed Report := ⟨fun ρ r => ⟨rename ρ r.outcome, rename ρ r.exception⟩⟩

/-! ## What a machine holds -/

instance : Renamed HandlerSet :=
  ⟨fun ρ set => ⟨rename ρ set.onGet, rename ρ set.onSet, rename ρ set.onDelete⟩⟩

instance : Renamed CallRecord := ⟨fun ρ call => ⟨rename ρ call.name, rename ρ call.arguments⟩⟩

/-- The handler of a kind in a renamed set is the handler, renamed. -/
@[simp] theorem forKind_rename (set : HandlerSet) (kind : AccessKind) :
    (rename ρ set).forKind kind = (set.forKind kind).map (rename ρ) := by
  cases kind <;> rfl

end ChainScript
