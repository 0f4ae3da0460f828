import ChainScript.Invoke
import ChainScript.Proofs.MirrorEval
import ChainScript.Proofs.MirrorProtocol

/-!
# Calls on copies

The functions of the library, the methods of stores, the classes, and what functions of the host do
follow their copies if the calls that they make do. By induction on the bound on nested calls so
does every call.
-/

namespace ChainScript

variable {ρ : Renaming}

/-! ## Iteration -/

/-- What is left to iterate of the copy of a store are the copies of what is left. -/
theorem mirror_fromStore (store : ObjectId) (size : Nat) (part : Slot → Value)
    (hpart : ∀ slot, part (rename ρ slot) = rename ρ (part slot)) :
    Follows ρ (Run.iterate.fromStore store size part)
      (Run.iterate.fromStore (ρ store) size part) := by
  refine .heap fun h h' hh => ?_
  have hc := hh.object? store
  revert hc
  generalize h.object? store = o, h'.object? (ρ store) = o'
  rintro (⟨hc⟩ | _)
  · cases hc with
    | store entries =>
      simp only [Table.size_rename]
      split
      · refine .pure _ ?_
        rw [Table.values_rename, rename_list, List.map_map, List.map_map]
        exact List.map_congr_left fun slot _ => hpart slot
      · exact .failNative _
    | _ => exact .outside
  · exact .outside

/-- Iterating a copy gives the copies of the items. -/
theorem follows_iterate (v : Value) : Follows ρ (Run.iterate v) (Run.iterate (rename ρ v)) := by
  cases v with
  | str s =>
    refine .pure _ ?_
    rw [rename_list, List.map_map]
    rfl
  | object id =>
    refine .heap fun h h' hh => ?_
    have hc := hh.object? id
    revert hc
    generalize h.object? id = o, h'.object? (ρ id) = o'
    rintro (⟨hc⟩ | _)
    · cases hc with
      | list items | tuple items => exact .pure items rfl
      | dict entries | proxy entries | record _ entries _ _ =>
        exact .pure _ (Slots.labels_rename ρ entries)
      | store entries =>
        refine .pure _ ?_
        rw [Table.values_rename, rename_list, List.map_map, List.map_map]
        rfl
      | iterator source =>
        refine (Mirror.put (.iterator (.snapshot []))).bind fun _ => ?_
        cases source with
        | snapshot items => exact .pure items rfl
        | storeKeys store size => exact mirror_fromStore store size Slot.label fun _ => rfl
        | storeValues store size => exact mirror_fromStore store size Slot.value fun _ => rfl
      | husk data => exact .outside
      | _ => exact .failNative _
    · exact .failNative _
  | _ => exact .failNative _

/-- A copy is a pair where the original is one. -/
theorem follows_pairOf (v : Value) : Follows ρ (Run.pairOf v) (Run.pairOf (rename ρ v)) := by
  refine (follows_iterate v).bind fun items => ?_
  rcases items with _ | ⟨a, _ | ⟨b, _ | ⟨c, rest⟩⟩⟩
  · exact .failNative _
  · exact .failNative _
  · exact .pure (a, b) rfl
  · exact .failNative _

/-! ## The library -/

/-- An argument that may be left out is renamed where it is there. -/
theorem orNull_rename (arguments : List Value) (i : Nat) :
    Library.orNull (arguments.map (rename ρ)) i = rename ρ (Library.orNull arguments i) := by
  unfold Library.orNull
  rw [List.getElem?_map]
  cases arguments[i]? <;> rfl

/-- Freezing a copy freezes it where the original can be frozen. -/
theorem follows_freeze (v : Value) : Follows ρ (Library.freeze v) (Library.freeze (rename ρ v)) := by
  refine .heap fun h h' hh => ?_
  have hc := hh.objectOf? v
  cases v with
  | object id =>
    revert hc
    simp only [rename_object]
    generalize h.objectOf? (.object id) = o, h'.objectOf? (.object (ρ id)) = o'
    rintro (⟨hc⟩ | _)
    · cases hc with
      | record kind slots parent frozen =>
        exact (Mirror.put (.record kind slots parent true)).bind fun _ =>
          .pure (Value.object id) rfl
      | _ => exact .fail rfl
    · exact .fail rfl
  | _ => exact .fail rfl

/-- A copy is frozen where the original is. -/
theorem Heap.Copy.isFrozen {h h' : Heap} (hh : h.Copy ρ h') (v : Value) :
    Library.isFrozen h' (rename ρ v) = Library.isFrozen h v := by
  have hc := hh.objectOf? v
  unfold Library.isFrozen
  revert hc
  generalize h.objectOf? v = o, h'.objectOf? (rename ρ v) = o'
  rintro (⟨hc⟩ | _)
  · cases hc <;> rfl
  · rfl

/-- A record that is made with a copied parent is a copy of the one with the parent. -/
theorem follows_create (parent : Value) :
    Follows ρ (Library.create parent) (Library.create (rename ρ parent)) := by
  cases parent with
  | null => exact .alloc (.record .plain .empty none false)
  | object id =>
    refine .heap fun h h' hh => ?_
    rw [hh.isRecord (.object id)]
    split
    · exact .alloc (.record .plain .empty (some id) false)
    · exact .fail rfl
  | _ => exact .fail rfl

/-- The labels of a copy that are text are the copies of those that are. -/
theorem filter_labels_rename (slots : Slots) :
    (Slots.labels (rename ρ slots)).filter (fun | .str _ => true | _ => false)
      = ((Slots.labels slots).filter fun | .str _ => true | _ => false).map (rename ρ) := by
  rw [Slots.labels_rename, List.filter_map]
  congr 1
  refine List.filter_congr fun v _ => ?_
  cases v <;> rfl

/-- The keys of a copy are the copies of the keys. -/
theorem follows_keys (v : Value) : Follows ρ (Library.keys v) (Library.keys (rename ρ v)) := by
  refine .heap fun h h' hh => ?_
  have hc := hh.objectOf? v
  revert hc
  generalize h.objectOf? v = o, h'.objectOf? (rename ρ v) = o'
  rintro (⟨hc⟩ | _)
  · cases hc with
    | record kind slots parent frozen =>
      exact .alloc (filter_labels_rename (ρ := ρ) slots ▸ .list _)
    | _ => exact .fail rfl
  · exact .fail rfl

/-- A copy has a key of its own where the original has it. -/
theorem mirror_hasOwn (v key : Value) :
    Mirror ρ id (Library.hasOwn v key) (Library.hasOwn (rename ρ v) (rename ρ key)) := by
  refine .heap fun h h' hh => ?_
  have hc := hh.objectOf? v
  revert hc
  generalize h.objectOf? v = o, h'.objectOf? (rename ρ v) = o'
  rintro (⟨hc⟩ | _)
  · cases hc with
    | record kind slots parent frozen =>
      exact (Mirror.keyOf key).bind fun k => .pure _ (Table.contains_rename ρ slots k)
    | _ => exact .pure false rfl
  · exact .pure false rfl

/-- An accessor that is made of copied functions is a copy of the accessor. -/
theorem follows_accessor (arguments : List Value) :
    Follows ρ
      (Run.alloc (.accessor (some (Library.orNull arguments 0)) (some (Library.orNull arguments 1))))
      (Run.alloc (.accessor (some (Library.orNull (arguments.map (rename ρ)) 0))
        (some (Library.orNull (arguments.map (rename ρ)) 1)))) := by
  simp only [orNull_rename]
  exact .alloc (.accessor _ _)

/-- A function of a library does to copies what it does to the originals. -/
theorem follows_library (function : LibraryFunction) (arguments : List Value) :
    Follows ρ (Library.run function arguments)
      (Library.run function (arguments.map (rename ρ))) := by
  have haccessor := follows_accessor (ρ := ρ) arguments
  rcases arguments with _ | ⟨a, _ | ⟨b, _ | ⟨c, rest⟩⟩⟩
  · cases function with
    | accessor => exact haccessor
    | create => exact follows_create .null
    | _ => exact .failNative _
  · cases function with
    | accessor => exact haccessor
    | create => exact follows_create a
    | freeze => exact follows_freeze a
    | isFrozen => exact .heap fun h h' hh => .pure _ (congrArg Value.bool (hh.isFrozen a))
    | keys => exact follows_keys a
    | hasOwn => exact .failNative _
  · cases function with
    | accessor => exact haccessor
    | hasOwn => exact (mirror_hasOwn a b).bind fun _ => .pure _ rfl
    | _ => exact .failNative _
  · cases function <;> exact .failNative _

/-! ## Stores -/

/-- A store of renamed entries is a copy of the store. -/
theorem copy_ofEntries (weak : Bool) (entries : StoreEntries) :
    (Store.ofEntries weak entries).Copy ρ (Store.ofEntries weak (rename ρ entries)) := by
  cases weak with
  | false => exact .store entries
  | true => exact .weakStore entries

/-- The entries of the copy of a store are the renamed ones. -/
theorem follows_entriesOf (store : ObjectId) :
    Follows ρ (Store.entriesOf store) (Store.entriesOf (ρ store)) := by
  refine .heap fun h h' hh => ?_
  have hc := hh.object? store
  unfold Store.entries?
  revert hc
  generalize h.object? store = o, h'.object? (ρ store) = o'
  rintro (⟨hc⟩ | _)
  · cases hc with
    | store entries | weakStore entries => exact .pure _ rfl
    | _ => exact .failNative _
  · exact .failNative _

/-- The copy of a store gives the copy of the value under a key. -/
theorem follows_storeGet (store : ObjectId) (key default : Value) :
    Follows ρ (Store.get store key default)
      (Store.get (ρ store) (rename ρ key) (rename ρ default)) := by
  refine (follows_entriesOf store).bind fun found => .pure _ ?_
  rw [StoreEntries.value?_rename]
  cases StoreEntries.value? found.1 key <;> rfl

/-- It has the copy of a key where the store has the key. -/
theorem mirror_storeHas (store : ObjectId) (key : Value) :
    Mirror ρ id (Store.has store key) (Store.has (ρ store) (rename ρ key)) := by
  refine (follows_entriesOf store).bind fun found => .pure _ ?_
  rw [StoreEntries.value?_rename, Option.isSome_map]
  rfl

/-- The copy of a key is refused where the key is. -/
theorem mirror_checkWeakKey (key : Value) :
    Mirror ρ id (Store.checkWeakKey key) (Store.checkWeakKey (rename ρ key)) := by
  refine .heap fun h h' hh => ?_
  rw [hh.isPrimitive, hh.isWeakReferable]
  split
  · exact .fail rfl
  · split
    · exact .fail rfl
    · exact .pure () rfl

/-- Entering copies in the copy of a store mirrors entering the originals. -/
theorem mirror_storeSet (store : ObjectId) (key value : Value) :
    Mirror ρ id (Store.set store key value)
      (Store.set (ρ store) (rename ρ key) (rename ρ value)) := by
  refine (follows_entriesOf store).bind fun found => ?_
  obtain ⟨entries, weak⟩ := found
  have hput : Mirror ρ id (Run.put store (Store.ofEntries weak (StoreEntries.put entries key value)))
      (Run.put (ρ store) (Store.ofEntries weak
        (StoreEntries.put (rename ρ entries) (rename ρ key) (rename ρ value)))) := by
    rw [StoreEntries.put_rename]
    exact .put (copy_ofEntries weak _)
  cases weak with
  | false => exact hput
  | true => exact (mirror_checkWeakKey key).bind fun _ => hput

/-- So does removing the copy of a key. -/
theorem mirror_storeDelete (store : ObjectId) (key : Value) :
    Mirror ρ id (Store.delete store key) (Store.delete (ρ store) (rename ρ key)) := by
  refine (follows_entriesOf store).bind fun found => ?_
  obtain ⟨entries, weak⟩ := found
  simp only [rename_prod, storeKey_rename, Table.erase_rename, StoreEntries.value?_rename,
    Option.isSome_map]
  exact (Mirror.put (copy_ofEntries weak _)).bind fun _ => .pure _ rfl

/-- So does removing every key. -/
theorem mirror_storeClear (store : ObjectId) :
    Mirror ρ id (Store.clear store) (Store.clear (ρ store)) := by
  refine (follows_entriesOf store).bind fun found => ?_
  exact .put (copy_ofEntries found.2 .empty)

/-- The items of the copy of a store are the copies of its items. -/
theorem follows_storeItems (store : ObjectId) :
    Follows ρ (Store.items store) (Store.items (ρ store)) := by
  refine (follows_entriesOf store).bind fun found => ?_
  simp only [fst_rename, Table.values_rename]
  refine (Mirror.mapM (q := rename ρ) (fun slot => ?_) found.1.values).bind fun pairs => ?_
  · exact Mirror.alloc (.tuple [slot.label, slot.value])
  · exact .alloc (.iterator (.snapshot pairs))

/-- An iterator that will look at a store again. -/
theorem follows_storeIterator (store : ObjectId) (source : ObjectId → Nat → IteratorSource)
    (hsource : ∀ size, rename ρ (source store size) = source (ρ store) size) :
    Follows ρ (do Run.alloc (.iterator (source store (← Store.entriesOf store).1.size)))
      (do Run.alloc (.iterator (source (ρ store) (← Store.entriesOf (ρ store)).1.size))) := by
  refine (follows_entriesOf store).bind fun found => ?_
  rw [fst_rename, Table.size_rename, ← hsource]
  exact .alloc (.iterator _)

/-- A method of the copy of a store does what that of the store does. -/
theorem follows_callMethod (store : ObjectId) (operation : StoreOperation)
    (arguments : List Value) :
    Follows ρ (Store.callMethod store operation arguments)
      (Store.callMethod (ρ store) operation (arguments.map (rename ρ))) := by
  rcases arguments with _ | ⟨a, _ | ⟨b, _ | ⟨c, rest⟩⟩⟩
  · cases operation with
    | clear => exact (mirror_storeClear store).bind fun _ => .pure Value.null rfl
    | keys => exact follows_storeIterator store .storeKeys fun _ => rfl
    | values => exact follows_storeIterator store .storeValues fun _ => rfl
    | items => exact follows_storeItems store
    | _ => exact .failNative _
  · cases operation with
    | get => exact follows_storeGet store a .undefined
    | has => exact (mirror_storeHas store a).bind fun _ => .pure _ rfl
    | delete => exact (mirror_storeDelete store a).bind fun _ => .pure _ rfl
    | _ => exact .failNative _
  · cases operation with
    | get => exact follows_storeGet store a b
    | set => exact (mirror_storeSet store a b).bind fun _ => .pure (Value.object store) rfl
    | _ => exact .failNative _
  · cases operation <;> exact .failNative _

/-- A store that is made of a copy is a copy of the store that is made of the original. -/
theorem follows_make (weak : Bool) (source : Value) :
    Follows ρ (Store.make weak source) (Store.make weak (rename ρ source)) := by
  refine (Mirror.alloc (copy_ofEntries weak .empty)).bind fun store => .heap fun h h' hh => ?_
  rw [hh.isTruthy]
  split
  · refine (follows_iterate source).bind fun items => ?_
    refine (Mirror.forIn (q := id) (fun item _ => ?_) items PUnit.unit).bind fun _ =>
      .pure store rfl
    refine (follows_pairOf item).bind fun pair => ?_
    cases store with
    | object store =>
      exact (mirror_storeSet store pair.1 pair.2).bind fun _ => .pure _ rfl
    | _ => exact .pure _ rfl
  · exact .pure store rfl

/-- What a copy shows as the data of a store is the copy of what the original shows. -/
theorem follows_dataOf (v : Value) : Follows ρ (Store.dataOf v) (Store.dataOf (rename ρ v)) := by
  refine .heap fun h h' hh => ?_
  have hshown : Follows ρ
      (if h.isForeign .get v "_data" then Run.outside else Attribute.get v "_data")
      (if h'.isForeign .get (rename ρ v) "_data" then Run.outside
        else Attribute.get (rename ρ v) "_data") := by
    rw [hh.isForeign]
    split
    · exact .outside
    · exact follows_attributeGet v "_data"
  have hc := hh.objectOf? v
  cases v with
  | object id =>
    revert hc
    simp only [rename_object] at hshown ⊢
    generalize h.objectOf? (.object id) = o, h'.objectOf? (.object (ρ id)) = o'
    rintro (⟨hc⟩ | _)
    · cases hc with
      | husk data => exact .pure _ rfl
      | record kind slots parent frozen => exact .pure _ (hh.slot? (.str "_data") id)
      | _ => exact hshown
    · exact hshown
  | _ => exact hshown

/-- The data of a copy are emptied as those of the original. -/
theorem follows_emptyData (guard : Guard) (data : Value) :
    Follows ρ (Store.emptyData guard data) (Store.emptyData guard (rename ρ data)) := by
  refine .heap fun h h' hh => ?_
  have hc := hh.objectOf? data
  cases data with
  | object id =>
    revert hc
    simp only [rename_object]
    generalize h.objectOf? (.object id) = o, h'.objectOf? (.object (ρ id)) = o'
    rintro (⟨hc⟩ | _)
    · cases hc with
      | record kind slots parent frozen =>
        have hput : Follows ρ
            (do Run.put id (.record kind .empty parent frozen); return Value.null)
            (do Run.put (ρ id) (.record kind .empty (parent.map ρ) frozen); return Value.null) :=
          (Mirror.put (.record kind .empty parent frozen)).bind fun _ => .pure Value.null rfl
        cases frozen with
        | false => exact hput
        | true => exact (Mirror.detour guard .openFrozen).bind fun _ => hput
      | dict entries => exact (Mirror.put (.dict .empty)).bind fun _ => .pure Value.null rfl
      | list items => exact (Mirror.put (.list [])).bind fun _ => .pure Value.null rfl
      | tuple items => exact .failNative _
      | _ => exact .outside
    · exact .outside
  | type | builtin => exact .outside
  | _ => exact .failNative _

/-- Where the data of the original are a frozen record, so are those of the copy. -/
theorem follows_changeData (guard : Guard) (data : Value) :
    Follows ρ (Store.changeData guard data) (Store.changeData guard (rename ρ data)) := by
  refine .heap fun h h' hh => ?_
  have hc := hh.objectOf? data
  revert hc
  generalize h.objectOf? data = o, h'.objectOf? (rename ρ data) = o'
  rintro (⟨hc⟩ | _)
  · cases hc with
    | record kind slots parent frozen =>
      cases frozen with
      | false => exact .outside
      | true => exact (Mirror.detour guard .openFrozen).bind fun _ => .outside
    | _ => exact .outside
  · exact .outside

/-- A method of stores does to a copy with other data what it does to the original. -/
theorem follows_callLent (guard : Guard) (v : Value) (operation : StoreOperation)
    (arguments : List Value) :
    Follows ρ (Store.callLent guard v operation arguments)
      (Store.callLent guard (rename ρ v) operation (arguments.map (rename ρ))) := by
  unfold Store.callLent
  rw [List.length_map]
  split
  · exact .failNative _
  · refine (follows_dataOf v).bind fun found => ?_
    cases found with
    | none => exact .failNative _
    | some data =>
      cases operation with
      | clear => exact follows_emptyData guard data
      | set | delete => exact follows_changeData guard data
      | _ => exact .outside

/-- A method of weak stores does to a copy of what is none what it does to the original. -/
theorem follows_callWeakLent (guard : Guard) (v : Value) :
    Follows ρ (Store.callWeakLent guard v) (Store.callWeakLent guard (rename ρ v)) := by
  refine (follows_dataOf v).bind fun found => ?_
  cases found with
  | none => exact .outside
  | some data => exact follows_changeData guard data

/-- A method that a copy shows does what that of the original does. -/
theorem follows_callBound (guard : Guard) (store : ObjectId) (operation : StoreOperation)
    (arguments : List Value) :
    Follows ρ (Store.callBound guard store operation arguments)
      (Store.callBound guard (ρ store) operation (arguments.map (rename ρ))) := by
  refine .heap fun h h' hh => ?_
  have hc := hh.object? store
  revert hc
  generalize h.object? store = o, h'.object? (ρ store) = o'
  rintro (⟨hc⟩ | _)
  · cases hc with
    | husk data => exact follows_callLent guard (.object store) operation arguments
    | _ => exact follows_callMethod store operation arguments
  · exact follows_callMethod store operation arguments

/-- A method of stores that is called as a function does the same to the copy of its first argument.
-/
theorem follows_callFunction (guard : Guard) (weak : Bool) (operation : StoreOperation)
    (arguments : List Value) :
    Follows ρ (Store.callFunction guard weak operation arguments)
      (Store.callFunction guard weak operation (arguments.map (rename ρ))) := by
  cases arguments with
  | nil => exact .failNative _
  | cons v arguments =>
    refine .heap fun h h' hh => ?_
    have hlent : Follows ρ
        (if weak then Store.callWeakLent guard v else Store.callLent guard v operation arguments)
        (if weak then Store.callWeakLent guard (rename ρ v)
          else Store.callLent guard (rename ρ v) operation (arguments.map (rename ρ))) := by
      split
      · exact follows_callWeakLent guard v
      · exact follows_callLent guard v operation arguments
    have hc := hh.objectOf? v
    cases v with
    | object id =>
      revert hc
      simp only [rename_object] at hlent ⊢
      generalize h.objectOf? (.object id) = o, h'.objectOf? (.object (ρ id)) = o'
      rintro (⟨hc⟩ | _)
      · cases hc with
        | store entries =>
          cases weak with
          | true => exact .outside
          | false => exact follows_callMethod id operation arguments
        | weakStore entries =>
          cases weak with
          | true => exact follows_callMethod id operation arguments
          | false => exact .outside
        | _ => exact hlent
      · exact hlent
    | _ => exact hlent

/-! ## Classes and handlers -/

/-- A call is recorded for the copy with the renamed arguments. -/
theorem mirror_record (name : Value) (arguments : List Value) :
    Mirror ρ id (Invoke.record name arguments)
      (Invoke.record (rename ρ name) (arguments.map (rename ρ))) := by
  refine .modify (fun _ => rfl) fun m h' => ?_
  simp only [Machine.moved, rename_list, List.map_append]
  rfl

/-- Entering the pairs that an iteration gives. -/
theorem follows_putPairs (source : Value) : Follows ρ
    (do
      let mut slots : Slots := .empty
      for item in ← Run.iterate source do
        let (key, value) ← Run.pairOf item
        slots := Slots.put slots (← Run.keyOf key) key value
      return slots)
    (do
      let mut slots : Slots := .empty
      for item in ← Run.iterate (rename ρ source) do
        let (key, value) ← Run.pairOf item
        slots := Slots.put slots (← Run.keyOf key) key value
      return slots) := by
  refine (follows_iterate source).bind fun items => ?_
  refine (Mirror.forIn (q := rename ρ) (fun item slots => ?_) items Table.empty).bind fun slots =>
    .pure slots rfl
  refine (follows_pairOf item).bind fun pair => (Mirror.keyOf pair.1).bind fun k => .pure _ ?_
  exact congrArg ForInStep.yield (Slots.put_rename ρ slots k pair.1 pair.2)

/-- The entries that a copy has to give are the copies of those of the original. -/
theorem follows_slotsOf (source : Value) :
    Follows ρ (Invoke.entriesOf source) (Invoke.entriesOf (rename ρ source)) := by
  refine .heap fun h h' hh => ?_
  have hc := hh.objectOf? source
  revert hc
  generalize h.objectOf? source = o, h'.objectOf? (rename ρ source) = o'
  rintro (⟨hc⟩ | _)
  · cases hc with
    | dict entries | proxy entries | record _ entries _ _ => exact .pure entries rfl
    | store entries =>
      simp only [Table.isEmpty_rename]
      split
      · exact .pure Table.empty rfl
      · exact .failNative _
    | _ => exact follows_putPairs source
  · exact follows_putPairs source

/-- A class that makes a record takes at most one source. -/
theorem follows_constructRecord (kind : RecordClass) (arguments : List Value) :
    Follows ρ (Invoke.construct (.record kind) arguments)
      (Invoke.construct (.record kind) (arguments.map (rename ρ))) := by
  have hsource : ∀ source : Value, Follows ρ
      (do Run.alloc (.record kind (← Invoke.entriesOf source) none false))
      (do Run.alloc (.record kind (← Invoke.entriesOf (rename ρ source)) none false)) :=
    fun source => (follows_slotsOf source).bind fun slots => .alloc (.record kind slots none false)
  rcases arguments with _ | ⟨source, _ | ⟨b, rest⟩⟩
  · exact .alloc (.record kind .empty none false)
  · cases source with
    | null => exact .alloc (.record kind .empty none false)
    | _ => exact hsource _
  · cases source <;> exact .failNative _

/-- A class makes a copy of copied arguments. -/
theorem follows_construct (c : Class) (arguments : List Value) :
    Follows ρ (Invoke.construct c arguments) (Invoke.construct c (arguments.map (rename ρ))) := by
  have haccessor := follows_accessor (ρ := ρ) arguments
  have hrecord := fun kind => follows_constructRecord (ρ := ρ) kind arguments
  rcases arguments with _ | ⟨a, _ | ⟨b, _ | ⟨_, rest⟩⟩⟩
  · cases c with
    | store => exact follows_make false .null
    | weakStore => exact follows_make true .null
    | symbol => exact .alloc (.symbol (some .null))
    | accessor => exact haccessor
    | record kind => exact hrecord kind
    | host kind => exact .alloc (.instance kind)
    | object => exact .alloc (.instance .bare)
    | list => exact .alloc (.list [])
    | tuple => exact .alloc (.tuple [])
    | dict => exact .alloc (.dict .empty)
    | str => exact .pure (Value.str "") rfl
    | _ => exact .failNative _
  · cases c with
    | store => exact follows_make false a
    | weakStore => exact follows_make true a
    | symbol => exact .alloc (.symbol (some a))
    | accessor => exact haccessor
    | record kind => exact hrecord kind
    | list => exact (follows_iterate a).bind fun items => .alloc (.list items)
    | tuple => exact (follows_iterate a).bind fun items => .alloc (.tuple items)
    | dict => exact (follows_slotsOf a).bind fun entries => .alloc (.dict entries)
    | str => exact (Mirror.text a).bind fun s => .pure (Value.str s) rfl
    | _ => exact .failNative _
  · cases c with
    | accessor => exact haccessor
    | boundFunction => exact .alloc (.bound (some a) (some b))
    | record kind => exact hrecord kind
    | _ => exact .failNative _
  · cases c with
    | record kind => exact hrecord kind
    | _ => exact .failNative _

/-- A function that is bound to a copied receiver is a copy of the bound function. -/
theorem follows_bind (function base : Value) :
    Follows ρ (Invoke.bind function base) (Invoke.bind (rename ρ function) (rename ρ base)) := by
  have hnew : Follows ρ (Run.alloc (.bound (some function) (some base)))
      (Run.alloc (.bound (some (rename ρ function)) (some (rename ρ base)))) :=
    .alloc (.bound (some function) (some base))
  refine .heap fun h h' hh => ?_
  have hc := hh.objectOf? function
  revert hc
  generalize h.objectOf? function = o, h'.objectOf? (rename ρ function) = o'
  rintro (⟨hc⟩ | _)
  · cases hc with
    | bound target receiver =>
      cases target with
      | none => exact .failNative _
      | some target =>
        cases receiver with
        | none => exact .failNative _
        | some receiver => exact .alloc (.bound (some target) (some receiver))
    | _ => exact hnew
  · exact hnew

variable {call : Caller}

/-- A method that the copy of a store shows does what the store's does. -/
theorem follows_callShown (hcall : CallerFollows ρ call) (store : Value) (name : String)
    (arguments : List Value) :
    Follows ρ (Invoke.callShown call store name arguments)
      (Invoke.callShown call (rename ρ store) name (arguments.map (rename ρ))) := by
  refine (follows_attributeGet store name).bind fun found => ?_
  cases found with
  | some f => exact hcall f arguments
  | none => exact .failNative _

/-! ## Functions of the host -/

/-- Slots under names that are text. -/
theorem namedSlots_rename (values : List (String × Value)) (slots : Slots) :
    (values.map fun (name, v) => (name, rename ρ v)).foldl
      (fun (slots : Slots) (name, v) => Slots.put slots (.str name) (.str name) v) (rename ρ slots)
    = rename ρ (values.foldl
      (fun (slots : Slots) (name, v) => Slots.put slots (.str name) (.str name) v) slots) := by
  induction values generalizing slots with
  | nil => rfl
  | cons entry rest ih =>
    rw [List.map_cons, List.foldl_cons, List.foldl_cons, ← ih]
    congr 1
    exact Slots.put_rename ρ slots (.str entry.1) (.str entry.1) entry.2

/-- The parameters of a script with the arguments that they stand for. -/
theorem arguments_rename (params : List String) (arguments : List Value) :
    (params.zipIdx.map fun (name, i) => (name, (arguments.map (rename ρ))[i]?.getD .undefined))
      = (params.zipIdx.map fun (name, i) => (name, arguments[i]?.getD .undefined)).map
        fun (name, v) => (name, rename ρ v) := by
  rw [List.map_map]
  refine List.map_congr_left fun entry _ => ?_
  simp only [Function.comp_apply, List.getElem?_map]
  cases arguments[entry.2]? <;> rfl

/-- The copy of a script does what the script does. -/
theorem follows_script (hcall : CallerFollows ρ call) (params : List String) (body : Value)
    (arguments : List Value) :
    Follows ρ (Invoke.script call params body arguments)
      (Invoke.script call params (rename ρ body) (arguments.map (rename ρ))) := by
  refine .get fun m h' _ => ?_
  have hslots := namedSlots_rename (ρ := ρ)
    (params.zipIdx.map fun (name, i) => (name, arguments[i]?.getD .undefined)) .empty
  rw [← arguments_rename, Table.rename_empty] at hslots
  dsimp only
  rw [hslots]
  refine (Mirror.alloc (.environment _ (some m.globals))).bind fun env => ?_
  exact (follows_programOf body).bind fun program => follows_evalRun hcall env program

/-- An environment that is made in a copied one is a copy of the environment. -/
theorem follows_scope (parent : Value) :
    Follows ρ (Invoke.scope parent) (Invoke.scope (rename ρ parent)) := by
  refine .heap fun h h' hh => ?_
  rw [hh.bindings?]
  cases parent with
  | null => exact .alloc (.environment .empty none)
  | object id =>
    cases Environment.bindings? h (.object id) with
    | none => exact .failNative _
    | some found => exact .alloc (.environment .empty (some found.1))
  | _ => exact .failNative _

/-- The items of the copy of a list are replaced as those of the list. -/
theorem mirror_refill (list : Value) (items : List Value) :
    Mirror ρ id (Invoke.refill list items)
      (Invoke.refill (rename ρ list) (items.map (rename ρ))) := by
  refine .heap fun h h' hh => ?_
  have hc := hh.objectOf? list
  cases list with
  | object id =>
    revert hc
    simp only [rename_object]
    generalize h.objectOf? (.object id) = o, h'.objectOf? (.object (ρ id)) = o'
    rintro (⟨hc⟩ | _)
    · cases hc with
      | list _ => exact .put (.list items)
      | _ => exact .failNative _
    · exact .failNative _
  | _ => exact .failNative _

/-- What a program of the host requests is done on the copy as its copy requests it. The induction
is on the two programs, which go on alike because they are answered alike. -/
theorem follows_perform (hcall : CallerFollows ρ call) {p p' : HostProgram} (hp : p.Copy ρ p') :
    Follows ρ (Invoke.perform call p) (Invoke.perform call p') := by
  induction hp with
  | answer v => exact .pure v rfl
  | raise failure => exact .fail rfl
  | get base key this _ ih => exact (follows_ordinaryGet hcall base key this).bind fun v => ih v
  | set base key value this _ ih =>
    exact (mirror_ordinarySet hcall base key value this).bind fun b => ih b
  | delete base key _ ih => exact (mirror_ordinaryDelete hcall base key).bind fun b => ih b
  | chain base resolver strict _ ih =>
    exact (follows_chain base resolver strict).bind fun ref => ih ref
  | binding env name strict _ ih => exact (follows_binding env name strict).bind fun ref => ih ref
  | read ref _ ih => exact (follows_read hcall ref).bind fun v => ih v
  | write ref value _ ih => exact (mirror_write hcall ref value).bind fun _ => ih
  | remove ref _ ih => exact (mirror_delete hcall ref).bind fun b => ih b
  | call f arguments _ ih => exact (hcall f arguments).bind fun v => ih v
  | scope parent _ ih => exact (follows_scope parent).bind fun v => ih v
  | run env tree _ ih =>
    exact (follows_programOf tree).bind fun program =>
      (follows_evalRun hcall env program).bind fun v => ih v
  | record name arguments _ ih => exact (mirror_record name arguments).bind fun _ => ih
  | items v _ ih => exact (follows_iterate v).bind fun vs => ih vs
  | refill list items _ ih => exact (mirror_refill list items).bind fun _ => ih
  | attach target onGet onSet onDelete _ ih =>
    exact (follows_attach target onGet onSet onDelete).bind fun _ => ih
  | detach target _ ih => exact (mirror_detach target).bind fun b => ih b
  | suspend once held hbody _ _ ih => exact (Mirror.alloc (.awaitable once held hbody)).bind fun v => ih v

/-- What was put off on a copy is done as what was put off on the original. -/
theorem follows_awaitValue (hcall : CallerFollows ρ call) (v : Value) :
    Follows ρ (Invoke.await call v) (Invoke.await call (rename ρ v)) := by
  refine .heap fun h h' hh => ?_
  have hc := hh.objectOf? v
  cases v with
  | object id =>
    revert hc
    simp only [rename_object]
    generalize h.objectOf? (.object id) = o, h'.objectOf? (.object (ρ id)) = o'
    rintro (⟨hc⟩ | _)
    · cases hc with
      | awaitable once held hbody =>
        have hdone := follows_perform hcall hbody
        cases once with
        | false => exact hdone
        | true =>
          have hspent : (Object.awaitable true [] Invoke.spent).Copy ρ (.awaitable true [] Invoke.spent) :=
            .awaitable true [] (.raise _)
          exact (Mirror.put hspent).bind fun _ => hdone
      | _ => exact .failNative _
    · exact .failNative _
  | _ => exact .failNative _

/-- A function that is there from the start does with copies what it does with the originals. -/
theorem follows_builtin (guard : Guard) (hcall : CallerFollows ρ call) (f : Builtin)
    (arguments : List Value) :
    Follows ρ (Invoke.builtin guard call f arguments)
      (Invoke.builtin guard call f (arguments.map (rename ρ))) := by
  -- Some functions take arguments of any number, and the others of one number only.
  cases f with
  | collect => rcases arguments with _ | _ <;> exact .alloc (.list _)
  | storeMethod weak operation => exact follows_callFunction guard weak operation arguments
  | «attribute» name kind => exact follows_serve guard hcall name kind arguments
  | libraryMethod function =>
    cases arguments with
    | nil => exact .failNative _
    | cons a rest => exact follows_library function rest
  | await =>
    rcases arguments with _ | ⟨a, _ | ⟨b, rest⟩⟩
    · exact .failNative _
    · exact follows_awaitValue hcall a
    · exact .failNative _
  | bindGet =>
    rcases arguments with _ | ⟨a, _ | ⟨b, _ | ⟨c, rest⟩⟩⟩
    · exact .failNative _
    · exact .failNative _
    · exact follows_bind a b
    · exact .failNative _
  | storeGet =>
    rcases arguments with _ | ⟨a, _ | ⟨b, _ | ⟨c, rest⟩⟩⟩
    · exact .failNative _
    · exact .failNative _
    · exact follows_callShown hcall a "get" [b]
    · exact .failNative _
  | storeDelete =>
    rcases arguments with _ | ⟨a, _ | ⟨b, _ | ⟨c, rest⟩⟩⟩
    · exact .failNative _
    · exact .failNative _
    · exact follows_callShown hcall a "delete" [b]
    · exact .failNative _
  | storeSet =>
    rcases arguments with _ | ⟨a, _ | ⟨b, _ | ⟨c, _ | ⟨d, rest⟩⟩⟩⟩
    · exact .failNative _
    · exact .failNative _
    · exact .failNative _
    · exact (follows_callShown hcall a "set" [b, c]).bind fun _ => .pure Value.null rfl
    · exact .failNative _

/-- A method of a copy does what that of the original does. -/
theorem follows_method (guard : Guard) (hcall : CallerFollows ρ call) (m : Method)
    (arguments : List Value) :
    Follows ρ (Invoke.method guard call m arguments)
      (Invoke.method guard call (rename ρ m) (arguments.map (rename ρ))) := by
  cases m with
  | store receiver operation => exact follows_callBound guard receiver operation arguments
  | part receiver part => exact follows_callPart hcall part (receiver :: arguments)
  | library receiver function => exact follows_library function arguments

/-- The copy of a host function does what the function does. -/
theorem follows_behave (hcall : CallerFollows ρ call) (id : ObjectId) {f f' : HostFunction}
    (hf : (Object.function f).Copy ρ (.function f')) (arguments : List Value) :
    Follows ρ (Invoke.behave call id f arguments)
      (Invoke.behave call (ρ id) f' (arguments.map (rename ρ))) := by
  cases hf with
  | function name recorded kind hb =>
    cases hb with
    | arguments => exact .alloc (.list arguments)
    | constant v => exact .pure v rfl
    | argument i =>
      refine .pure _ ?_
      rw [List.getElem?_map]
      cases arguments[i]? <;> rfl
    | count calls =>
      exact (Mirror.put (.function name recorded kind (.count (calls + 1)))).bind fun _ => .pure _ rfl
    | getSlot key =>
      rcases arguments with _ | ⟨base, rest⟩
      · exact .failNative _
      · exact follows_ordinaryGet hcall base key .null
    | setSlot key =>
      rcases arguments with _ | ⟨base, _ | ⟨value, rest⟩⟩
      · exact .failNative _
      · exact .failNative _
      · exact (mirror_ordinarySet hcall base key value .null).bind fun _ => .pure _ rfl
    | raise failure => exact .fail rfl
    | script params body => exact follows_script hcall params body arguments
    | program held hbody => exact follows_perform hcall (hbody arguments)

/-! ## Calls -/

/-- Every call follows its copy, however deep calls may nest and whatever detours are barred. -/
theorem callerFollows_guarded (ρ : Renaming) (guard : Guard) (depth : Nat) :
    CallerFollows ρ (guarded guard depth) := by
  -- A call at one depth makes its own calls at the depth below, which follow by induction.
  induction depth with
  | zero => exact fun f arguments => .stop rfl
  | succ depth ih =>
    intro f arguments
    cases f with
    | type c => exact follows_construct c arguments
    | builtin b => exact follows_builtin guard ih b arguments
    | object id =>
      refine .heap fun h h' hh => ?_
      have hc := hh.object? id
      revert hc
      generalize h.object? id = o, h'.object? (ρ id) = o'
      rintro (⟨hc⟩ | _)
      · cases hc with
        | function name recorded kind hb =>
          have hbehave := follows_behave ih id (.function name recorded kind hb) arguments
          cases recorded with
          | false => exact hbehave
          | true =>
            have hname : (name.map (rename ρ)).getD .null = rename ρ (name.getD .null) := by
              cases name <;> rfl
            simp only [hname]
            exact (mirror_record (name.getD .null) arguments).bind fun _ => hbehave
        | bound target receiver =>
          cases target with
          | none => exact .failNative _
          | some target =>
            cases receiver with
            | none => exact .failNative _
            | some receiver => exact ih target (receiver :: arguments)
        | method m => exact follows_method guard ih m arguments
        | _ => exact .failNative _
      · exact .failNative _
    | _ => exact .failNative _

end ChainScript
