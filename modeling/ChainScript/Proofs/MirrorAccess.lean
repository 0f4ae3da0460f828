import ChainScript.Access.Dispatch
import ChainScript.Proofs.Mirror

/-!
# Accesses to copies

Every way to reach a property does on a copy what it does on the original: attributes, slots,
handlers and references. What a caller does to copies is taken as given here, because calls lead
back to accesses.
-/

namespace ChainScript

variable {ρ : Renaming}

instance : Renamed Given where
  rename ρ
    | .value v => .value (rename ρ v)
    | .method m => .method (rename ρ m)
    | .part part => .part part

instance : Renamed Handler :=
  ⟨fun ρ handler => ⟨rename ρ handler.function, handler.resolver.map (rename ρ)⟩⟩

/-- A given value is renamed as a value. -/
@[simp] theorem rename_givenValue (v : Value) :
    rename ρ (Given.value v) = .value (rename ρ v) := rfl

/-- A given method is renamed as a method. -/
@[simp] theorem rename_givenMethod (m : Method) :
    rename ρ (Given.method m) = .method (rename ρ m) := rfl

/-! ## What objects and types give -/

/-- What a class offers to a copy is the copy of what it offers. -/
theorem Offer.given?_rename (receiver : Value) (part : ClassPart) (offer : Offer) :
    offer.given? (rename ρ receiver) part = (offer.given? receiver part).map (rename ρ) := by
  cases offer <;> rfl

/-- What the host gives of a copy of an object is what it gives of the object, renamed. -/
theorem Object.Copy.given?_eq {o o' : Object} (c : o.Copy ρ o') (id : ObjectId) (name : String) :
    o'.given? (ρ id) name = (o.given? id name).map (rename ρ) := by
  cases c with
  | store entries =>
    simp only [Object.given?, Table.size_rename]
    split
    · rfl
    · simp [Function.comp_def]
  | weakStore entries => simp [Object.given?, Function.comp_def]
  | husk data => simp [Object.given?, Function.comp_def]
  | «instance» kind =>
    simp only [Object.given?]
    cases AccessKind.ofReservedName? name with
    | none => rfl
    | some access => exact Offer.given?_rename (.object id) _ (kind.offer access)
  | reference r =>
    have hname : (rename ρ r).name.value = rename ρ r.name.value := by
      rw [name_rename]
      cases r.name <;> rfl
    unfold Object.given?
    split
    case h_6 | h_8 | h_9 | h_10 | h_11 => cases ‹Object.reference _ = _›; rfl
    case h_7 => cases ‹Object.reference _ = _›; exact congrArg (some ∘ Given.value) hname
    all_goals simp_all
  | method m =>
    by_cases hname : name = "__name__"
    · subst hname
      cases m <;> rfl
    · simp [Object.given?, hname]
  | _ => rfl

/-- What the host gives of a renamed value is what it gives of the value, renamed. -/
theorem Value.given?_rename (v : Value) (name : String) :
    (rename ρ v).given? name = (v.given? name).map (rename ρ) := by
  cases v with
  | undefined | type | builtin =>
    simp only [rename_undefined, rename_type, rename_builtin]
    unfold Value.given?
    split <;> simp_all [Function.comp_def]
  | _ => rfl

/-- Making a value of what the host gives goes the same way in the copy. -/
theorem follows_toValue (given : Given) :
    Follows ρ given.toValue (rename ρ given).toValue := by
  cases given with
  | value v => exact .pure v rfl
  | method m => exact .alloc (.method m)
  | part part =>
    refine .heap fun h h' hh => .pure _ ?_
    rw [hh.classPart]
    cases h.classParts.find? part <;> rfl

/-- The attributes of a copy that are the host's own are those of the original. -/
theorem Object.Copy.isForeign_eq {o o' : Object} (c : o.Copy ρ o') (kind : AccessKind) (name : String) :
    o'.isForeign kind name = o.isForeign kind name := by
  cases c with
  | iterator source => cases source <;> rfl
  | awaitable once held hbody => cases once <;> rfl
  | _ => rfl

namespace Heap.Copy

variable {h h' : Heap}

/-- What was set on an object is set on its copy. -/
theorem attribute? (hh : h.Copy ρ h') (v : Value) (name : String) :
    (h'.attributes (rename ρ v)).find? name = ((h.attributes v).find? name).map (rename ρ) := by
  rw [hh.attributes]
  exact Table.find?_rename ρ (h.attributes v) name

/-- An attribute of a copy is left to the host where that of the original is. -/
theorem isForeign (hh : h.Copy ρ h') (kind : AccessKind) (v : Value) (name : String) :
    h'.isForeign kind (rename ρ v) name = h.isForeign kind v name := by
  cases v with
  | object id =>
    have hc := hh.object? id
    simp only [rename_object, Heap.isForeign]
    revert hc
    generalize h.object? id = o, h'.object? (ρ id) = o'
    rintro (⟨hc⟩ | _)
    · simp only [Option.map_some, hc.isForeign_eq]
    · rfl
  | _ => rfl

/-- The function behind a method of a copy is the copy of the one behind the method. -/
theorem functionOf (hh : h.Copy ρ h') (m : Method) :
    h'.functionOf (rename ρ m) = rename ρ (h.functionOf m) := by
  cases m with
  | store id operation =>
    have hc := hh.object? id
    simp only [rename_storeMethod, Heap.functionOf]
    revert hc
    generalize h.object? id = o, h'.object? (ρ id) = o'
    rintro (⟨hc⟩ | _)
    · cases hc <;> rfl
    · rfl
  | part receiver part =>
    simp only [rename_partMethod, Heap.functionOf, hh.classPart]
    cases h.classParts.find? part <;> rfl
  | library id f => rfl

/-- A copy has an attribute where the original has it. -/
theorem has (hh : h.Copy ρ h') (v : Value) (name : String) :
    Attribute.has h' (rename ρ v) name = Attribute.has h v name := by
  have hset : (h'.attributes (rename ρ v)).contains name = (h.attributes v).contains name := by
    simp only [Table.contains, hh.attribute?, Option.isSome_map]
  have hgiven := Value.given?_rename (ρ := ρ) v name
  unfold Attribute.has
  rw [hset]
  congr 1
  cases v with
  | object id =>
    have hc := hh.object? id
    simp only [rename_object]
    revert hc
    generalize h.object? id = o, h'.object? (ρ id) = o'
    rintro (⟨hc⟩ | _)
    · have hnatives : ∀ {o o' : Object}, o.Copy ρ o' → o'.natives = o.natives := by
        intro o o' c
        cases c with
        | iterator source => cases source <;> rfl
        | awaitable once held hbody => cases once <;> rfl
        | _ => rfl
      simp only [hc.kept?_eq, hc.given?_eq, hnatives hc]
      rename_i o o'
      cases o.kept? name with
      | some found => simp
      | none =>
        simp only [Option.map_none, Option.isSome_map]
        congr 1
        cases hc with
        | method m => simp only [Table.contains, hh.functionOf, hh.attribute?, Option.isSome_map]
        | _ => rfl
    · rfl
  | _ => exact congrArg (· || _) (congrArg Option.isSome hgiven |>.trans Option.isSome_map)

/-- The handlers for a copy are the copies of those for the original. -/
theorem lookup (hh : h.Copy ρ h') (registry : Registry) (resolver : Value) :
    (rename ρ registry).lookup h' (rename ρ resolver)
      = (registry.lookup h resolver).map (rename ρ) := by
  unfold Registry.lookup
  have hentries : (rename ρ registry).entries.reverse
      = registry.entries.reverse.map (rename ρ) := by
    rw [Table.entries_rename, rename_list, List.map_reverse]
  rw [hentries, List.find?_map]
  have hinstance : ((fun entry : Class × HandlerSet => h'.isInstance (rename ρ resolver) entry.1)
      ∘ rename ρ) = fun entry => h.isInstance resolver entry.1 :=
    funext fun entry => hh.isInstance resolver entry.1
  rw [hinstance]
  cases registry.entries.reverse.find? fun entry => h.isInstance resolver entry.1 <;> rfl

/-- The items of a copy are the copies of the items. -/
theorem sequence? (hh : h.Copy ρ h') (v : Value) :
    Ordinary.sequence? h' (rename ρ v) = (Ordinary.sequence? h v).map (List.map (rename ρ)) := by
  cases v with
  | str s => simp [Ordinary.sequence?]
  | object id =>
    have hc := hh.object? id
    simp only [rename_object, Ordinary.sequence?, Heap.objectOf?]
    revert hc
    generalize h.object? id = o, h'.object? (ρ id) = o'
    rintro (⟨hc⟩ | _)
    · cases hc <;> rfl
    · rfl
  | _ => rfl

/-- What is an accessor has a copy with the copied functions, and nothing else has. -/
theorem accessor? (hh : h.Copy ρ h') (v : Value) :
    Ordinary.accessor? h' (rename ρ v) = (Ordinary.accessor? h v).map (rename ρ) := by
  have hc := hh.objectOf? v
  unfold Ordinary.accessor?
  revert hc
  generalize h.objectOf? v = o, h'.objectOf? (rename ρ v) = o'
  rintro (⟨hc⟩ | _)
  · cases hc <;> rfl
  · rfl

end Heap.Copy

/-! ## Attributes -/

/-- Reading an attribute of a copy gives the copy of what is read. -/
theorem follows_attributeGet (v : Value) (name : String) :
    Follows ρ (Attribute.get v name) (Attribute.get (rename ρ v) name) := by
  refine .heap fun h h' hh => ?_
  have hgiven := Value.given?_rename (ρ := ρ) v name
  rw [hh.attribute?]
  cases (h.attributes v).find? name with
  | some found => exact .pure _ rfl
  | none =>
    cases v with
    | object id =>
      have hc := hh.object? id
      simp only [rename_object, Option.map_none]
      revert hc
      generalize h.object? id = o, h'.object? (ρ id) = o'
      rintro (⟨hc⟩ | _)
      · rename_i o o'
        simp only [hc.kept?_eq, hc.given?_eq]
        cases o.kept? name with
        | some found => exact .pure _ rfl
        | none =>
          cases o.given? id name with
          | none =>
            cases hc with
            | method m =>
              refine .pure _ ?_
              rw [hh.functionOf, hh.attribute?]
              rfl
            | _ => exact .pure _ rfl
          | some given => exact (follows_toValue given).bind fun v => .pure _ rfl
      · exact .pure _ rfl
    | _ => exact .pure _ hgiven

/-- Setting an attribute succeeds on a copy where it does on the original. -/
theorem mirror_attributeSet (v : Value) (name : String) (new : Value) :
    Mirror ρ id (Attribute.set v name new) (Attribute.set (rename ρ v) name (rename ρ new)) := by
  refine .heap fun h h' hh => ?_
  have henter : Mirror ρ id
      (do
        Run.modifyHeap fun h => h.putAttributes v ((h.attributes v).insert name new)
        return true)
      (do
        Run.modifyHeap fun h =>
          h.putAttributes (rename ρ v) ((h.attributes (rename ρ v)).insert name (rename ρ new))
        return true) := by
    refine (Mirror.putAttributes fun h h' hh => ?_).bind fun _ => .pure true rfl
    rw [hh.attributes]
    exact Table.insert_rename ρ (h.attributes v) name new
  cases v with
  | undefined | builtin => exact henter
  | object id =>
    have hc := hh.object? id
    simp only [rename_object]
    revert hc
    generalize h.object? id = o, h'.object? (ρ id) = o'
    rintro (⟨hc⟩ | _)
    · simp only [hc.kept?_eq, hc.takesAttribute_eq, Option.isSome_map]
      split
      · exact (Mirror.put (hc.withKept name (some new))).bind fun _ => .pure true rfl
      · split
        · exact henter
        · exact .pure false rfl
    · exact .pure false rfl
  | _ => exact .pure false rfl

/-- So does deleting one. -/
theorem mirror_attributeDelete (v : Value) (name : String) :
    Mirror ρ id (Attribute.delete v name) (Attribute.delete (rename ρ v) name) := by
  refine .heap fun h h' hh => ?_
  have hset : (h'.attributes (rename ρ v)).contains name = (h.attributes v).contains name := by
    simp only [Table.contains, hh.attribute?, Option.isSome_map]
  rw [hset]
  split
  · refine (Mirror.putAttributes fun h h' hh => ?_).bind fun _ => .pure true rfl
    rw [hh.attributes]
    exact Table.erase_rename ρ (h.attributes v) name
  · cases v with
    | object id =>
      have hc := hh.object? id
      simp only [rename_object]
      revert hc
      generalize h.object? id = o, h'.object? (ρ id) = o'
      rintro (⟨hc⟩ | _)
      · rename_i o o'
        simp only [hc.kept?_eq]
        rcases o.kept? name with _ | _ | found
        · exact .pure false rfl
        · exact .pure false rfl
        · exact (Mirror.put (hc.withKept name none)).bind fun _ => .pure true rfl
      · exact .pure false rfl
    | _ => exact .pure false rfl

/-! ## Ordinary slots -/

/-- What a caller does to copies is what it does to the originals. -/
def CallerFollows (ρ : Renaming) (call : Caller) : Prop :=
  ∀ f arguments, Follows ρ (call f arguments) (call (rename ρ f) (arguments.map (rename ρ)))

/-- What can be the base of an access is the same in the copy. -/
theorem follows_toObject (v : Value) :
    Follows ρ (Ordinary.toObject v) (Ordinary.toObject (rename ρ v)) := by
  unfold Ordinary.toObject
  rw [isNullish_rename]
  split
  · exact .fail rfl
  · exact .pure v rfl

/-- What can be the key of a slot is the same in the copy. -/
theorem follows_propertyKey (v : Value) :
    Follows ρ (Ordinary.propertyKey v) (Ordinary.propertyKey (rename ρ v)) := by
  refine .heap fun h h' hh => ?_
  rw [hh.isPrimitive]
  split
  · exact .pure v rfl
  · exact .fail rfl

/-- The receiver of an access is renamed with it. -/
theorem receiverOf_rename (base this : Value) :
    Ordinary.receiverOf (rename ρ base) (rename ρ this) = rename ρ (Ordinary.receiverOf base this) := by
  unfold Ordinary.receiverOf
  simp only [rename_eq_null]
  split <;> rfl

/-- Reading an item or an attribute of what is neither a record nor a mapping. -/
theorem follows_getOther {call : Caller} (hcall : CallerFollows ρ call) {h h' : Heap}
    (hh : h.Copy ρ h') (base key : Value) :
    Follows ρ
      (match key, Ordinary.sequence? h base with
        | .int index, some items =>
          return ((Ordinary.position? items.length index).bind (items[·]?)).getD .undefined
        | .str name, _ =>
          if h.isForeign .get base name then call (.builtin (.attribute name .get)) [base]
          else return (← Attribute.get base name).getD .undefined
        | _, _ => return .undefined)
      (match rename ρ key, Ordinary.sequence? h' (rename ρ base) with
        | .int index, some items =>
          return ((Ordinary.position? items.length index).bind (items[·]?)).getD .undefined
        | .str name, _ =>
          if h'.isForeign .get (rename ρ base) name then
            call (.builtin (.attribute name .get)) [rename ρ base]
          else return (← Attribute.get (rename ρ base) name).getD .undefined
        | _, _ => return .undefined) := by
  rw [hh.sequence?]
  cases key with
  | int index =>
    cases Ordinary.sequence? h base with
    | none => exact .pure _ rfl
    | some items =>
      refine .pure _ ?_
      rw [List.length_map]
      cases Ordinary.position? items.length index with
      | none => rfl
      | some i => simp only [Option.bind_some, List.getElem?_map]; cases items[i]? <;> rfl
  | str name =>
    simp only [rename_str, hh.isForeign]
    split
    · exact hcall _ [base]
    · refine (follows_attributeGet base name).bind fun found => .pure _ ?_
      cases found <;> rfl
  | _ => exact .pure _ rfl

/-- An ordinary read of a copy gives the copy of what is read. -/
theorem follows_ordinaryGet {call : Caller} (hcall : CallerFollows ρ call) (base key this : Value) :
    Follows ρ (Ordinary.get call base key this)
      (Ordinary.get call (rename ρ base) (rename ρ key) (rename ρ this)) := by
  refine .heap fun h h' hh => ?_
  have hother := follows_getOther hcall hh base key
  have hc := hh.objectOf? base
  cases base with
  | object id =>
    revert hc
    simp only [rename_object]
    generalize h.objectOf? (.object id) = o, h'.objectOf? (.object (ρ id)) = o'
    rintro (⟨hc⟩ | _)
    · cases hc with
      | record kind slots parent frozen =>
        refine (Mirror.keyOf key).bind fun k => ?_
        rw [hh.slot?]
        cases (h.owner? k id).bind fun owner => h.ownValue? owner k with
        | none => exact .pure _ rfl
        | some slot =>
          simp only [Option.map_some, hh.accessor?]
          cases Ordinary.accessor? h slot with
          | none => exact .pure _ rfl
          | some accessor =>
            obtain ⟨getter, setter⟩ := accessor
            cases getter with
            | none => exact .failNative _
            | some getter =>
              have hrun := hcall getter [Ordinary.receiverOf (.object id) this]
              rw [List.map_singleton, ← receiverOf_rename] at hrun
              cases getter with
              | null => exact .pure _ rfl
              | _ => exact hrun
      | dict entries | proxy entries =>
        refine (Mirror.keyOf key).bind fun k => .pure _ ?_
        rw [Slots.value?_rename]
        cases Slots.value? entries k <;> rfl
      | _ => exact hother
    · exact hother
  | _ => exact hother

/-- A slot of the copy of a record is written where that of the record is. -/
theorem mirror_writeOwn (owner : ObjectId) (k : Key) (label value : Value) :
    Mirror ρ id (Ordinary.writeOwn owner k label value)
      (Ordinary.writeOwn (ρ owner) (rename ρ k) (rename ρ label) (rename ρ value)) := by
  refine .heap fun h h' hh => ?_
  have hc := hh.object? owner
  revert hc
  generalize h.object? owner = o, h'.object? (ρ owner) = o'
  rintro (⟨hc⟩ | _)
  · cases hc with
    | record kind slots parent frozen =>
      cases frozen with
      | true => exact .pure false rfl
      | false =>
        simp only [Slots.put_rename]
        exact (Mirror.put (.record kind _ parent false)).bind fun _ => .pure true rfl
    | _ => exact .pure false rfl
  · exact .pure false rfl

/-- An answer of the host to a change of an attribute is true on the copy if it is on the original.
-/
theorem mirror_served {call : Caller} (hcall : CallerFollows ρ call) (f : Builtin)
    (arguments : List Value) :
    Mirror ρ id (do return (← call (.builtin f) arguments) == .bool true)
      (do return (← call (.builtin f) (arguments.map (rename ρ))) == .bool true) := by
  refine (hcall (.builtin f) arguments).bind fun answer => .pure _ ?_
  cases answer <;> rfl

/-- Writing an attribute of what has no slots and no items. -/
theorem mirror_setOther {call : Caller} (hcall : CallerFollows ρ call) {h h' : Heap}
    (hh : h.Copy ρ h') (base key value : Value) :
    Mirror ρ id
      (match key with
        | .str name =>
          if h.isForeign .set base name then
            return (← call (.builtin (.attribute name .set)) [base, value]) == .bool true
          else Attribute.set base name value
        | _ => return false)
      (match rename ρ key with
        | .str name =>
          if h'.isForeign .set (rename ρ base) name then
            return (← call (.builtin (.attribute name .set)) [rename ρ base, rename ρ value])
              == .bool true
          else Attribute.set (rename ρ base) name (rename ρ value)
        | _ => return false) := by
  cases key with
  | str name =>
    simp only [rename_str, hh.isForeign]
    split
    · exact mirror_served hcall _ [base, value]
    · exact mirror_attributeSet base name value
  | _ => exact .pure false rfl

/-- Writing the record that a write lands on: the receiver, if that is one. -/
theorem mirror_writeTarget {h h' : Heap} (hh : h.Copy ρ h') (owner : ObjectId) (receiver : Value)
    (k : Key) (label value : Value) :
    Mirror ρ id
      (Ordinary.writeOwn
        (match receiver with
          | .object r => if h.isRecord (.object r) then r else owner
          | _ => owner) k label value)
      (Ordinary.writeOwn
        (match rename ρ receiver with
          | .object r => if h'.isRecord (.object r) then r else ρ owner
          | _ => ρ owner) (rename ρ k) (rename ρ label) (rename ρ value)) := by
  cases receiver with
  | object r =>
    have hr := hh.isRecord (.object r)
    simp only [rename_object] at hr ⊢
    rw [hr]
    split <;> exact mirror_writeOwn _ k label value
  | _ => exact mirror_writeOwn owner k label value

/-- An ordinary write of a copy succeeds where that of the original does. -/
theorem mirror_ordinarySet {call : Caller} (hcall : CallerFollows ρ call)
    (base key value this : Value) :
    Mirror ρ id (Ordinary.set call base key value this)
      (Ordinary.set call (rename ρ base) (rename ρ key) (rename ρ value) (rename ρ this)) := by
  refine .heap fun h h' hh => ?_
  have hother := mirror_setOther hcall hh base key value
  have hc := hh.objectOf? base
  cases base with
  | object owner =>
    revert hc
    simp only [rename_object]
    generalize h.objectOf? (.object owner) = o, h'.objectOf? (.object (ρ owner)) = o'
    rintro (⟨hc⟩ | _)
    · cases hc with
      | record kind slots parent frozen =>
        refine (Mirror.keyOf key).bind fun k => ?_
        have hwrite :=
          mirror_writeTarget hh owner (Ordinary.receiverOf (.object owner) this) k key value
        have hreceiver := receiverOf_rename (ρ := ρ) (.object owner) this
        rw [rename_object] at hreceiver
        simp only [hreceiver, hh.slot?]
        cases (h.owner? k owner).bind fun owner => h.ownValue? owner k with
        | none => exact hwrite
        | some slot =>
          simp only [Option.map_some, Option.bind_some, hh.accessor?]
          cases Ordinary.accessor? h slot with
          | none => exact hwrite
          | some accessor =>
            obtain ⟨getter, setter⟩ := accessor
            cases setter with
            | none => exact .failNative _
            | some setter =>
              have hrun := hcall setter [Ordinary.receiverOf (.object owner) this, value]
              rw [List.map_cons, List.map_singleton] at hrun
              cases setter with
              | null => exact .pure false rfl
              | _ => exact hrun.bind fun _ => .pure true rfl
      | dict entries =>
        refine (Mirror.keyOf key).bind fun k => ?_
        simp only [Slots.put_rename]
        exact (Mirror.put (.dict _)).bind fun _ => .pure true rfl
      | proxy entries => exact .pure false rfl
      | list items =>
        cases key with
        | int index =>
          simp only [rename_int, List.length_map]
          cases Ordinary.position? items.length index with
          | none => exact .pure false rfl
          | some i =>
            simp only [← List.map_set]
            exact (Mirror.put (.list _)).bind fun _ => .pure true rfl
        | _ => exact .pure false rfl
      | _ => exact hother
    · exact hother
  | _ => exact hother

/-- Deleting an item or an attribute of what is neither a record nor a mapping. -/
theorem mirror_deleteOther {call : Caller} (hcall : CallerFollows ρ call) {h h' : Heap}
    (hh : h.Copy ρ h') (base key : Value) :
    Mirror ρ id
      (match key, Ordinary.sequence? h base with
        | .int index, some items => return (Ordinary.position? items.length index).isNone
        | .str name, _ =>
          if h.isForeign .delete base name then
            return (← call (.builtin (.attribute name .delete)) [base]) == .bool true
          else if Attribute.has h base name then Attribute.delete base name else return true
        | _, _ => return true)
      (match rename ρ key, Ordinary.sequence? h' (rename ρ base) with
        | .int index, some items => return (Ordinary.position? items.length index).isNone
        | .str name, _ =>
          if h'.isForeign .delete (rename ρ base) name then
            return (← call (.builtin (.attribute name .delete)) [rename ρ base]) == .bool true
          else if Attribute.has h' (rename ρ base) name then Attribute.delete (rename ρ base) name
          else return true
        | _, _ => return true) := by
  rw [hh.sequence?]
  cases key with
  | int index =>
    cases Ordinary.sequence? h base with
    | none => exact .pure true rfl
    | some items => exact .pure _ (by rw [List.length_map]; rfl)
  | str name =>
    simp only [rename_str, hh.isForeign, hh.has]
    split
    · exact mirror_served hcall _ [base]
    · split
      · exact mirror_attributeDelete base name
      · exact .pure true rfl
  | _ => exact .pure true rfl

/-- So does an ordinary delete. -/
theorem mirror_ordinaryDelete {call : Caller} (hcall : CallerFollows ρ call) (base key : Value) :
    Mirror ρ id (Ordinary.delete call base key)
      (Ordinary.delete call (rename ρ base) (rename ρ key)) := by
  refine .heap fun h h' hh => ?_
  have hother := mirror_deleteOther hcall hh base key
  have hc := hh.objectOf? base
  cases base with
  | object owner =>
    revert hc
    simp only [rename_object]
    generalize h.objectOf? (.object owner) = o, h'.objectOf? (.object (ρ owner)) = o'
    rintro (⟨hc⟩ | _)
    · cases hc with
      | record kind slots parent frozen =>
        refine (Mirror.keyOf key).bind fun k => ?_
        simp only [Table.contains_rename, Table.erase_rename]
        cases Table.contains slots k with
        | false => exact .pure true rfl
        | true =>
          cases frozen with
          | true => exact .pure false rfl
          | false => exact (Mirror.put (.record kind _ parent false)).bind fun _ => .pure true rfl
      | dict entries =>
        refine (Mirror.keyOf key).bind fun k => ?_
        simp only [Table.erase_rename]
        exact (Mirror.put (.dict _)).bind fun _ => .pure true rfl
      | proxy entries =>
        exact (Mirror.keyOf key).bind fun k => .pure _ (by rw [Table.contains_rename]; rfl)
      | _ => exact hother
    · exact hother
  | _ => exact hother

/-! ## Handlers -/

/-- What a resolver offers as its own handler, with whether a reserved symbol names it. -/
theorem follows_own (resolver : Value) (kind : AccessKind) :
    Follows ρ (Resolver.own resolver kind) (Resolver.own (rename ρ resolver) kind) := by
  refine .heap fun h h' hh => ?_
  have hattribute : Follows ρ (do return (← Attribute.get resolver kind.reservedName, false))
      (do return (← Attribute.get (rename ρ resolver) kind.reservedName, false)) :=
    (follows_attributeGet resolver kind.reservedName).bind fun found => .pure _ rfl
  have hc := hh.objectOf? resolver
  cases resolver with
  | object id =>
    revert hc
    simp only [rename_object]
    generalize h.objectOf? (.object id) = o, h'.objectOf? (.object (ρ id)) = o'
    rintro (⟨hc⟩ | _)
    · cases hc with
      | record c slots parent frozen =>
        have howner := hh.owner? (.object kind.symbol) id
        have hvalue := fun owner => hh.ownValue? owner (.object kind.symbol)
        simp only [rename_objectKey, Renaming.apply_symbol] at howner hvalue
        simp only [howner]
        cases h.owner? (.object kind.symbol) id with
        | some owner =>
          have hshown := Mirror.inspect (ρ := ρ) (.object kind.symbol)
          rw [rename_object, Renaming.apply_symbol] at hshown
          refine hshown.bind fun _ => .pure _ ?_
          rw [hvalue]
          rfl
        | none =>
          have hgiven := Offer.given?_rename (ρ := ρ) (.object id) (.handler (.record c) kind)
            (c.offer kind)
          rw [rename_object] at hgiven
          simp only [Option.map_none, hgiven]
          cases (c.offer kind).given? (.object id) (.handler (.record c) kind) with
          | none => exact .pure _ rfl
          | some given => exact (follows_toValue given).bind fun v => .pure _ rfl
      | _ => exact hattribute
    · exact hattribute
  | type c =>
    have hgiven := Offer.given?_rename (ρ := ρ) (.type c) (.metaHandler c kind) (c.metaOffer kind)
    rw [rename_type] at hgiven ⊢
    dsimp only
    cases hoffer : (c.metaOffer kind).given? (.type c) (.metaHandler c kind) with
    | none => exact .pure _ rfl
    | some given =>
      rw [hoffer] at hgiven
      have hmade := follows_toValue (ρ := ρ) given
      rw [← Option.some.inj hgiven] at hmade
      exact hmade.bind fun v => .pure _ rfl
  | _ => exact hattribute

/-- The search for a resolver's own handler comes to the copy in the copy. -/
theorem follows_selfAttached (resolver : Value) (kind : AccessKind) :
    Follows ρ (Resolver.selfAttached resolver kind)
      (Resolver.selfAttached (rename ρ resolver) kind) := by
  refine (follows_own resolver kind).bind fun found => ?_
  obtain ⟨f, bySymbol⟩ := found
  have hcheck : ∀ f : Value, Follows ρ
      (do
        if (← Run.heap).isCallable f then return some f
        else Run.fail (.handlerNotFunction resolver kind bySymbol))
      (do
        if (← Run.heap).isCallable (rename ρ f) then return some (rename ρ f)
        else Run.fail (.handlerNotFunction (rename ρ resolver) kind bySymbol)) := by
    refine fun f => .heap fun h h' hh => ?_
    rw [hh.isCallable]
    split
    · exact .pure _ rfl
    · exact .fail rfl
  cases f with
  | none => exact .pure none rfl
  | some f =>
    cases f with
    | null => exact .pure none rfl
    | _ => exact hcheck _

/-- So does the search for the handler that serves an access. -/
theorem follows_handler (resolver : Value) (kind : AccessKind) :
    Follows ρ (Resolver.handler resolver kind) (Resolver.handler (rename ρ resolver) kind) := by
  refine (follows_selfAttached resolver kind).bind fun own => ?_
  cases own with
  | some f => exact .pure _ rfl
  | none =>
    refine .get fun m h' hh => ?_
    simp only [Machine.moved_registry, Machine.moved_heap, hh.lookup]
    cases m.registry.lookup m.heap resolver with
    | none => exact .fail rfl
    | some handlers =>
      simp only [Option.map_some, Option.bind_some, forKind_rename]
      cases handlers.forKind kind with
      | none => exact .fail rfl
      | some f => exact .pure _ rfl

/-- The copy of a handler does to copies what the handler does. -/
theorem follows_handlerRun {call : Caller} (hcall : CallerFollows ρ call) (handler : Handler)
    (arguments : List Value) :
    Follows ρ (handler.run call arguments)
      ((rename ρ handler).run call (arguments.map (rename ρ))) := by
  have hrun := hcall handler.function (handler.resolver.toList ++ arguments)
  rw [List.map_append, ← Option.toList_map] at hrun
  exact hrun

/-! ## References -/

/-- The reference to a slot of a copy is the copy of the reference. -/
theorem follows_property (base name : Value) (strict : Bool) (this : Value) (isSuper : Bool) :
    Follows ρ (Reference.property base name strict this isSuper)
      (Reference.property (rename ρ base) (rename ρ name) strict (rename ρ this) isSuper) := by
  unfold Reference.property
  rw [isNullish_rename]
  split
  · exact .fail rfl
  · refine .heap fun h h' hh => .pure _ ?_
    simp only [hh.isPrimitive, rename_eq_undefined]
    split <;> split <;> rfl

/-- So is the reference to a binding. -/
theorem ofBinding_rename (owner name : Value) (strict : Bool) (this : Value) (isSuper : Bool) :
    Reference.ofBinding (rename ρ owner) (rename ρ name) strict (rename ρ this) isSuper
      = rename ρ (Reference.ofBinding owner name strict this isSuper) := by
  have hnull : (rename ρ owner != .null) = (owner != .null) := by
    cases owner <;> rfl
  unfold Reference.ofBinding
  rw [hnull]
  simp only [rename_eq_undefined]
  split <;> rfl

/-- The bindings of the copy of an environment are the copies of its bindings. -/
theorem Heap.Copy.bindings? {h h' : Heap} (hh : h.Copy ρ h') (env : Value) :
    Environment.bindings? h' (rename ρ env)
      = (Environment.bindings? h env).map fun (id, bindings, parent) =>
        (ρ id, rename ρ bindings, parent.map ρ) := by
  have hc := hh.objectOf? env
  cases env with
  | object id =>
    revert hc
    simp only [rename_object, Environment.bindings?]
    generalize h.objectOf? (.object id) = o, h'.objectOf? (.object (ρ id)) = o'
    rintro (⟨hc⟩ | _)
    · cases hc <;> rfl
    · rfl
  | _ => rfl

/-- The environment that binds a name in the copy is the copy of the one that does. -/
theorem mirror_owner (env name : Value) :
    Mirror ρ (Option.map ρ) (Environment.owner env name)
      (Environment.owner (rename ρ env) (rename ρ name)) := by
  refine .heap fun h h' hh => ?_
  simp only [hh.bindings?]
  cases Environment.bindings? h env with
  | none => exact .failNative _
  | some found => exact (Mirror.keyOf name).bind fun k => .pure _ (hh.owner? k found.1)

/-- The value that is bound in the copy is the copy of the one that is bound. -/
theorem follows_lookup (env name : Value) :
    Follows ρ (Environment.lookup env name)
      (Environment.lookup (rename ρ env) (rename ρ name)) := by
  refine .heap fun h h' hh => ?_
  rw [hh.bindings?]
  cases Environment.bindings? h env with
  | none => exact .failNative _
  | some found =>
    obtain ⟨id, bindings, parent⟩ := found
    refine (Mirror.keyOf name).bind fun k => ?_
    simp only [Slots.value?_rename]
    cases Slots.value? bindings k with
    | none => exact .failNative _
    | some v => exact .pure v rfl

/-- Binding a name in the copy mirrors binding it. -/
theorem mirror_assign (env name value : Value) :
    Mirror ρ id (Environment.assign env name value)
      (Environment.assign (rename ρ env) (rename ρ name) (rename ρ value)) := by
  refine .heap fun h h' hh => ?_
  rw [hh.bindings?]
  cases Environment.bindings? h env with
  | none => exact .failNative _
  | some found =>
    obtain ⟨id, bindings, parent⟩ := found
    refine (Mirror.keyOf name).bind fun k => ?_
    simp only [Slots.put_rename]
    exact .put (.environment _ parent)

/-- So does removing a name. -/
theorem mirror_remove (env name : Value) :
    Mirror ρ id (Environment.remove env name)
      (Environment.remove (rename ρ env) (rename ρ name)) := by
  refine .heap fun h h' hh => ?_
  rw [hh.bindings?]
  cases Environment.bindings? h env with
  | none => exact .failNative _
  | some found =>
    obtain ⟨id, bindings, parent⟩ := found
    refine (Mirror.keyOf name).bind fun k => ?_
    simp only [Table.erase_rename]
    exact (Mirror.put (.environment _ parent)).bind fun _ => .pure true rfl

/-- The reference that is made to a name in the copy is the copy of the reference. -/
theorem follows_binding (env name : Value) (strict : Bool) :
    Follows ρ (Dispatch.binding env name strict)
      (Dispatch.binding (rename ρ env) (rename ρ name) strict) := by
  refine (mirror_owner env name).bind fun owner => .pure _ ?_
  have howner : ((owner.map ρ).map Value.object).getD .null
      = rename ρ ((owner.map Value.object).getD .null) := by
    cases owner <;> rfl
  rw [howner]
  exact ofBinding_rename _ name strict .undefined false

/-- So is the virtual reference that is made to a base. -/
theorem follows_chain (base resolver : Value) (strict : Bool) :
    Follows ρ (Dispatch.chain base resolver strict)
      (Dispatch.chain (rename ρ base) (rename ρ resolver) strict) := by
  refine (follows_toObject base).bind fun base => ?_
  refine (follows_property base resolver strict .undefined false).bind fun ref => ?_
  simp only [isVirtual_rename]
  split
  · exact (Mirror.inspect resolver).bind fun shown =>
      (Mirror.note (.pure _ rfl)).bind fun _ => .pure ref rfl
  · exact .pure ref rfl

/-! ## Carrying references out -/

/-- An ordinary access of a copy is traced in the same words. -/
theorem mirror_noteOrdinary (word : String) (key : Value) :
    Mirror ρ id (Dispatch.noteOrdinary word key) (Dispatch.noteOrdinary word (rename ρ key)) :=
  (Mirror.inspect key).bind fun _ => .note (.pure _ rfl)

/-- So is a virtual one. -/
theorem mirror_noteVirtual (word : String) (resolver : Value) (handler : Handler) :
    Mirror ρ id (Dispatch.noteVirtual word resolver handler)
      (Dispatch.noteVirtual word (rename ρ resolver) (rename ρ handler)) := by
  have hsource : (rename ρ handler).source = handler.source := by
    obtain ⟨function, resolver⟩ := handler
    cases resolver <;> rfl
  refine .note (.heap fun h h' hh => .pure _ ?_)
  rw [hh.typeName, hsource]
  rfl

/-- A note that names a binding. -/
theorem mirror_noteBinding (f : String → List String) (name : Value) :
    Mirror ρ id (Run.note (do return f (← Run.text name)))
      (Run.note (do return f (← Run.text (rename ρ name)))) :=
  .note ((Mirror.text name).bind fun _ => .pure _ rfl)

variable {call : Caller}

/-- Reading the copy of a reference gives the copy of what is read. -/
theorem follows_read (hcall : CallerFollows ρ call) (ref : Reference) :
    Follows ρ (Dispatch.read call ref) (Dispatch.read call (rename ρ ref)) := by
  obtain ⟨base, name, this, strict, resolvable, isSuper⟩ := ref
  cases name with
  | binding name =>
    cases resolvable with
    | false => exact .fail rfl
    | true => exact (mirror_noteBinding _ name).bind fun _ => follows_lookup base name
  | ordinary key =>
    exact (mirror_noteOrdinary "read" key).bind fun _ => follows_ordinaryGet hcall base key this
  | virtual resolver =>
    refine (follows_handler resolver .get).bind fun handler => ?_
    refine (mirror_noteVirtual "read" resolver handler).bind fun _ => ?_
    exact follows_handlerRun hcall handler [base]

/-- Writing the copy of a reference mirrors writing it. -/
theorem mirror_write (hcall : CallerFollows ρ call) (ref : Reference) (value : Value) :
    Mirror ρ id (Dispatch.write call ref value)
      (Dispatch.write call (rename ρ ref) (rename ρ value)) := by
  obtain ⟨base, name, this, strict, resolvable, isSuper⟩ := ref
  cases name with
  | binding name =>
    cases resolvable with
    | true => exact (mirror_noteBinding _ name).bind fun _ => mirror_assign base name value
    | false =>
      cases strict with
      | true => exact .fail rfl
      | false =>
        refine (mirror_noteBinding _ name).bind fun _ => .get fun m h' _ => ?_
        exact mirror_assign (.object m.globals) name value
  | ordinary key =>
    refine (mirror_noteOrdinary "write" key).bind fun _ => ?_
    refine (mirror_ordinarySet hcall base key value this).bind fun written => ?_
    cases written with
    | true => exact .pure () rfl
    | false =>
      cases strict with
      | true => exact .fail rfl
      | false => exact .pure () rfl
  | virtual resolver =>
    refine (follows_handler resolver .set).bind fun handler => ?_
    refine (mirror_noteVirtual "write" resolver handler).bind fun _ => ?_
    exact (follows_handlerRun hcall handler [base, value]).bind fun _ => .pure () rfl

/-- So does deleting it. -/
theorem mirror_delete (hcall : CallerFollows ρ call) (ref : Reference) :
    Mirror ρ id (Dispatch.delete call ref) (Dispatch.delete call (rename ρ ref)) := by
  obtain ⟨base, name, this, strict, resolvable, isSuper⟩ := ref
  cases isSuper with
  | true => exact .fail rfl
  | false =>
    cases name with
    | binding name =>
      cases resolvable with
      | true => exact (mirror_noteBinding _ name).bind fun _ => mirror_remove base name
      | false => exact .pure true rfl
    | ordinary key =>
      refine (mirror_noteOrdinary "delete" key).bind fun _ => ?_
      refine (mirror_ordinaryDelete hcall base key).bind fun deleted => ?_
      cases deleted with
      | true => exact .pure true rfl
      | false =>
        cases strict with
        | true => exact .fail rfl
        | false => exact .pure false rfl
    | virtual resolver =>
      refine (follows_handler resolver .delete).bind fun handler => ?_
      refine (mirror_noteVirtual "delete" resolver handler).bind fun _ => ?_
      exact (follows_handlerRun hcall handler [base]).bind fun _ => .pure true rfl

end ChainScript
