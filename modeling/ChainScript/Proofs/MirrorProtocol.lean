import ChainScript.Access.Protocol
import ChainScript.Attach
import ChainScript.Proofs.MirrorAccess

/-!
# Attributes of the host's own on copies

What the host does on its own when an attribute is read, set or deleted is done on a copy as on the
original, as long as the functions behind attributes are called alike. So is attaching handlers to a
class and taking them away.
-/

namespace ChainScript

variable {ρ : Renaming}

namespace Heap.Copy

variable {h h' : Heap}

/-- The chain of parents of a copy ends at the copy of the object at which the chain ends. -/
theorem root (hh : h.Copy ρ h') (id : ObjectId) : h'.root (ρ id) = ρ (h.root id) := by
  induction id using Nat.strong_induction_on with
  | _ id ih =>
    rw [Heap.root, Heap.root, hh.link?]
    cases h.link? id with
    | none => rfl
    | some link =>
      obtain ⟨slots, parent⟩ := link
      cases parent with
      | none => rfl
      | some p =>
        simp only [Option.map_some, Renaming.apply_lt]
        by_cases hp : p < id
        · rw [if_pos hp, if_pos hp, ih p hp]
        · rw [if_neg hp, if_neg hp]

/-- A copy has a function behind an attribute if the original has. -/
theorem computed? (hh : h.Copy ρ h') (v : Value) (name : String) (kind : AccessKind) :
    Protocol.computed? h' (rename ρ v) name kind = Protocol.computed? h v name kind := by
  have hc := hh.objectOf? v
  unfold Protocol.computed?
  revert hc
  generalize h.objectOf? v = o, h'.objectOf? (rename ρ v) = o'
  rintro (⟨hc⟩ | _)
  · cases hc <;> rfl
  · rfl

end Heap.Copy

variable {call : Caller}

/-- The function behind an attribute is called on a copy as on the original. -/
theorem follows_callPart (hcall : CallerFollows ρ call) (part : ClassPart) (arguments : List Value) :
    Follows ρ (Protocol.callPart call part arguments)
      (Protocol.callPart call part (arguments.map (rename ρ))) := by
  refine .heap fun h h' hh => ?_
  rw [hh.classPart]
  cases h.classParts.find? part with
  | none => exact .failNative _
  | some f => exact hcall f arguments

/-! ## Fields -/

/-- The parts of a number are numbers. -/
theorem follows_ofNumber (v one zero : Value) (name : String) :
    Follows ρ (Protocol.ofNumber v one zero name)
      (Protocol.ofNumber (rename ρ v) (rename ρ one) (rename ρ zero) name) := by
  unfold Protocol.ofNumber
  split
  any_goals exact .pure _ rfl
  exact .outside

/-- A field of an object is read from a copy as from the original. -/
theorem follows_readObject (guard : Guard) (target : ObjectId) (name : String) :
    Follows ρ (Protocol.readField guard (.object target) name)
      (Protocol.readField guard (.object (ρ target)) name) := by
  refine .get fun m h' hh => ?_
  have hc := hh.object? target
  have hlength := hh.length (.object target)
  have hroot := hh.root target
  rw [rename_object] at hlength
  dsimp only [Machine.moved_heap, Machine.moved_globals, Machine.moved_strict]
  rw [hlength, hroot]
  revert hc
  generalize m.heap.object? target = o, h'.object? (ρ target) = o'
  rintro (⟨hc⟩ | _)
  · cases hc with
    | «instance» c =>
      dsimp only
      split <;> first | exact .pure _ rfl | exact .outside
    | method method =>
      dsimp only
      rw [receiver_rename, hh.functionOf]
      split
      · exact .pure _ rfl
      · split <;> first | exact .pure _ rfl | exact .outside
    | husk data =>
      dsimp only
      split
      · cases data with
        | none => exact .failNative _
        | some d => exact .pure _ rfl
      · split
        · exact (Mirror.ofPrinted (r := id) (id_map _).symm).bind fun n => .pure _ rfl
        · exact .outside
    | environment bindings parent =>
      dsimp only
      split
      · refine .pure _ ?_
        cases parent <;> rfl
      · split <;> first | exact .pure _ rfl | exact .outside
    | evaluator globals =>
      simp only [Renaming.apply_inj]
      split
      · exact (Mirror.detour guard .readStrict).bind fun _ => .pure _ rfl
      · exact .outside
    | _ => exact .outside
  · exact .outside

/-- A field is read from a copy as from the original. -/
theorem follows_readField (guard : Guard) (v : Value) (name : String) :
    Follows ρ (Protocol.readField guard v name) (Protocol.readField guard (rename ρ v) name) := by
  cases v with
  | object id => exact follows_readObject guard id name
  | int n => exact .get fun _ _ _ => follows_ofNumber (.int n) (.int 1) (.int 0) name
  | bool b =>
    exact .get fun _ _ _ => follows_ofNumber (.int (if b then 1 else 0)) (.int 1) (.int 0) name
  | float x =>
    refine .get fun _ _ _ => ?_
    dsimp only [rename_float]
    split <;> first | exact .pure _ rfl | exact .outside
  | _ => exact .get fun _ _ _ => .outside

/-- An attribute of the host's own is read from a copy as from the original. -/
theorem follows_protocolRead (guard : Guard) (hcall : CallerFollows ρ call) (v : Value)
    (name : String) :
    Follows ρ (Protocol.read guard call v name) (Protocol.read guard call (rename ρ v) name) := by
  refine .heap fun h h' hh => ?_
  rw [hh.computed?]
  cases Protocol.computed? h v name .get with
  | some part => exact follows_callPart hcall part [v]
  | none => exact follows_readField guard v name

/-- A copy of an environment is given the copy of a parent. -/
theorem mirror_relink (guard : Guard) (env : ObjectId) (bindings : Slots) (new : Value) :
    Mirror ρ id (Protocol.relink guard env bindings new)
      (Protocol.relink guard (ρ env) (rename ρ bindings) (rename ρ new)) := by
  refine (Mirror.detour guard .relink).bind fun _ => .heap fun h h' hh => ?_
  have hc := hh.objectOf? new
  cases new with
  | null => exact .put (.environment bindings none)
  | object p =>
    revert hc
    simp only [rename_object]
    generalize h.objectOf? (.object p) = o, h'.objectOf? (.object (ρ p)) = o'
    rintro (⟨hc⟩ | _)
    · cases hc with
      | environment _ _ =>
        simp only [Renaming.apply_lt]
        split
        · exact .put (.environment bindings (some p))
        · exact .outside
      | _ => exact .outside
    · exact .outside
  | _ => exact .outside

/-- A field of an object is set on a copy as on the original. -/
theorem mirror_writeObject (guard : Guard) (target : ObjectId) (name : String) (new : Value) :
    Mirror ρ id (Protocol.writeField guard (.object target) name new)
      (Protocol.writeField guard (.object (ρ target)) name (rename ρ new)) := by
  refine .get fun m h' hh => ?_
  have hc := hh.object? target
  dsimp only [Machine.moved_heap, Machine.moved_globals]
  revert hc
  generalize m.heap.object? target = o, h'.object? (ρ target) = o'
  rintro (⟨hc⟩ | _)
  · cases hc with
    | «instance» c =>
      dsimp only
      split
      · cases new with
        | type d =>
          cases d with
          | host d =>
            dsimp only [rename_type]
            split
            · exact .put (.instance d)
            · exact .outside
          | _ => exact .failNative _
        | _ => exact .failNative _
      · exact .outside
    | store entries =>
      dsimp only
      split
      · exact .put (.husk (some new))
      · exact .outside
    | husk data =>
      dsimp only
      split
      · exact .put (.husk (some new))
      · split <;> first | exact .failNative _ | exact .outside
    | environment bindings parent =>
      dsimp only
      split
      · exact mirror_relink guard target bindings new
      · split <;> first | exact .failNative _ | exact .outside
    | evaluator globals =>
      simp only [Renaming.apply_inj]
      split
      · refine (Mirror.detour guard .writeStrict).bind fun _ => ?_
        cases new with
        | bool b => exact .modify (fun _ => rfl) fun _ _ => rfl
        | _ => exact .outside
      · exact .outside
    | list | tuple | method | iterator | bound | reference => exact .failNative _
    | _ => exact .outside
  · exact .outside

/-- A field is set on a copy as on the original. -/
theorem mirror_writeField (guard : Guard) (v : Value) (name : String) (new : Value) :
    Mirror ρ id (Protocol.writeField guard v name new)
      (Protocol.writeField guard (rename ρ v) name (rename ρ new)) := by
  cases v with
  | object target => exact mirror_writeObject guard target name new
  | type c =>
    refine .get fun _ _ _ => ?_
    dsimp only [rename_type]
    split <;> first | exact .failNative _ | exact .outside
  | undefined | builtin => exact .get fun _ _ _ => .outside
  | _ => exact .get fun _ _ _ => .failNative _

/-- An attribute of the host's own is set on a copy as on the original. -/
theorem mirror_protocolWrite (guard : Guard) (hcall : CallerFollows ρ call) (v : Value)
    (name : String) (new : Value) :
    Mirror ρ id (Protocol.write guard call v name new)
      (Protocol.write guard call (rename ρ v) name (rename ρ new)) := by
  refine .heap fun h h' hh => ?_
  rw [hh.computed?]
  cases Protocol.computed? h v name .set with
  | some part => exact (follows_callPart hcall part [v, new]).bind fun _ => .pure _ rfl
  | none => exact mirror_writeField guard v name new

/-- A field of an object is deleted from a copy as from the original. -/
theorem mirror_eraseObject (guard : Guard) (target : ObjectId) (name : String) :
    Mirror ρ id (Protocol.eraseField guard (.object target) name)
      (Protocol.eraseField guard (.object (ρ target)) name) := by
  refine .get fun m h' hh => ?_
  have hc := hh.object? target
  dsimp only [Machine.moved_heap, Machine.moved_globals]
  revert hc
  generalize m.heap.object? target = o, h'.object? (ρ target) = o'
  rintro (⟨hc⟩ | _)
  · cases hc with
    | «instance» c =>
      dsimp only
      split <;> first | exact .failNative _ | exact .outside
    | store entries =>
      dsimp only
      split
      · exact .put (.husk none)
      · exact .outside
    | husk data =>
      dsimp only
      split
      · exact .put (.husk none)
      · split <;> first | exact .failNative _ | exact .outside
    | environment bindings parent =>
      dsimp only
      split
      · exact (Mirror.detour guard .relink).bind fun _ => .outside
      · split <;> first | exact .failNative _ | exact .outside
    | evaluator globals =>
      simp only [Renaming.apply_inj]
      split
      · exact (Mirror.detour guard .writeStrict).bind fun _ => .outside
      · exact .outside
    | list | tuple | method | iterator | bound | reference => exact .failNative _
    | _ => exact .outside
  · exact .outside

/-- A field is deleted from a copy as from the original. -/
theorem mirror_eraseField (guard : Guard) (v : Value) (name : String) :
    Mirror ρ id (Protocol.eraseField guard v name)
      (Protocol.eraseField guard (rename ρ v) name) := by
  cases v with
  | object target => exact mirror_eraseObject guard target name
  | type c =>
    refine .get fun _ _ _ => ?_
    dsimp only [rename_type]
    split <;> first | exact .failNative _ | exact .outside
  | undefined | builtin => exact .get fun _ _ _ => .outside
  | _ => exact .get fun _ _ _ => .failNative _

/-- An attribute of the host's own is deleted from a copy as from the original. -/
theorem mirror_protocolErase (guard : Guard) (hcall : CallerFollows ρ call) (v : Value)
    (name : String) :
    Mirror ρ id (Protocol.erase guard call v name) (Protocol.erase guard call (rename ρ v) name) := by
  refine .heap fun h h' hh => ?_
  rw [hh.computed?]
  cases Protocol.computed? h v name .delete with
  | some part => exact (follows_callPart hcall part [v]).bind fun _ => .pure _ rfl
  | none => exact mirror_eraseField guard v name

/-- What the host answers to an access to an attribute of its own is answered alike for a copy. -/
theorem follows_serve (guard : Guard) (hcall : CallerFollows ρ call) (name : String)
    (kind : AccessKind) (arguments : List Value) :
    Follows ρ (Protocol.serve guard call name kind arguments)
      (Protocol.serve guard call name kind (arguments.map (rename ρ))) := by
  rcases arguments with _ | ⟨v, _ | ⟨new, _ | ⟨c, rest⟩⟩⟩
  · cases kind <;> exact .failNative _
  · cases kind with
    | get => exact (follows_protocolRead guard hcall v name).catching guard _ Value.undefined
    | set => exact .failNative _
    | delete =>
      have hthere : Mirror ρ id (do let _ ← Protocol.read guard call v name; return true)
          (do let _ ← Protocol.read guard call (rename ρ v) name; return true) :=
        (follows_protocolRead guard hcall v name).bind fun _ => .pure true rfl
      refine (hthere.catching guard Protocol.misses false).bind fun there => ?_
      cases there with
      | false => exact .pure (Value.bool true) rfl
      | true =>
        have herased : Follows ρ
            (do Protocol.erase guard call v name; return Value.bool true)
            (do Protocol.erase guard call (rename ρ v) name; return Value.bool true) :=
          (mirror_protocolErase guard hcall v name).bind fun _ => .pure (Value.bool true) rfl
        exact herased.catching guard Protocol.refuses (Value.bool false)
  · cases kind with
    | set =>
      have hset : Follows ρ
          (do Protocol.write guard call v name new; return Value.bool true)
          (do Protocol.write guard call (rename ρ v) name (rename ρ new); return Value.bool true) :=
        (mirror_protocolWrite guard hcall v name new).bind fun _ => .pure (Value.bool true) rfl
      exact hset.catching guard Protocol.refuses (Value.bool false)
    | _ => exact .failNative _
  · cases kind <;> exact .failNative _

/-! ## Attaching -/

namespace Registry

/-- Handlers are attached to a class as their copies are. -/
theorem attach_rename (r : Registry) (c : Class) (handlers : HandlerSet) :
    (rename ρ r).attach c (rename ρ handlers) = rename ρ (r.attach c handlers) := by
  have herase := Table.erase_rename ρ r c
  rw [rename_class] at herase
  unfold attach
  rw [herase]
  exact Table.insert_rename ρ (r.erase c) c handlers

end Registry

/-- A copy of what can be called can be called, and is taken as a handler. -/
theorem follows_givenHandler (v : Value) :
    Follows ρ (Host.givenHandler v) (Host.givenHandler (rename ρ v)) := by
  unfold Host.givenHandler
  simp only [rename_eq_null]
  split
  · exact .pure none rfl
  · refine .heap fun h h' hh => ?_
    rw [hh.isCallable]
    split
    · exact .pure _ rfl
    · exact .fail rfl

/-- Copies are attached where the originals are. -/
theorem follows_attach (target onGet onSet onDelete : Value) :
    Follows ρ (Host.attach target onGet onSet onDelete)
      (Host.attach (rename ρ target) (rename ρ onGet) (rename ρ onSet) (rename ρ onDelete)) := by
  cases target with
  | type c =>
    refine (follows_givenHandler onGet).bind fun get => ?_
    refine (follows_givenHandler onSet).bind fun set => ?_
    refine (follows_givenHandler onDelete).bind fun delete => ?_
    refine Mirror.bind (.modify (fun _ => rfl) fun m h' => ?_) fun _ => .pure _ rfl
    show Machine.mk .. = Machine.mk ..
    congr 1
    exact Registry.attach_rename m.registry c ⟨get, set, delete⟩
  | _ => exact .fail rfl

/-- Handlers are taken away from a class in both runs. -/
theorem mirror_detach (target : Value) :
    Mirror ρ id (Host.detach target) (Host.detach (rename ρ target)) := by
  cases target with
  | type c =>
    refine .get fun m h' _ => ?_
    have hattached := Table.contains_rename ρ m.registry c
    rw [rename_class] at hattached
    dsimp only [rename_type, Machine.moved_registry]
    rw [hattached]
    refine Mirror.bind (.modify (fun _ => rfl) fun m h' => ?_) fun _ => .pure _ rfl
    show Machine.mk .. = Machine.mk ..
    congr 1
    exact Table.erase_rename ρ m.registry c
  | _ => exact .pure false rfl

end ChainScript
