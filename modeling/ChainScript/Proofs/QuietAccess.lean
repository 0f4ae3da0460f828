import ChainScript.Proofs.Pending

/-!
# Quiet accesses

Attributes, ordinary slots, environments and the search for a handler are quiet, and so is the first
half of every access, up to the call that is pending.
-/

namespace ChainScript

open Run (Quiet)

/-- An answer or a fault is come to quietly. -/
theorem Pending.quiet_settle {α : Type} (r : Except Fault α) : Quiet (settle r) := by
  cases r with
  | ok answer => exact .pure _
  | error fault => exact .fail _

/-! ## Attributes -/

/-- A method that is made on demand is an object like any other. -/
theorem Given.quiet_toValue (given : Given) : Quiet given.toValue := by
  cases given with
  | value v => exact .pure _
  | method m => exact .alloc _
  | part p => exact .heap fun _ => .pure _

namespace Attribute

/-- An attribute is read quietly. -/
theorem quiet_get (v : Value) (name : String) : Quiet (get v name) := by
  refine .heap fun h => ?_
  split
  · exact .pure _
  · split
    · split
      · exact .pure _
      · split
        · exact .pure _
        · split
          · exact (Given.quiet_toValue _).bind fun _ => .pure _
          · split <;> exact .pure _
    · exact .pure _

/-- An attribute is set quietly. -/
theorem quiet_set (v : Value) (name : String) (new : Value) : Quiet (set v name new) := by
  refine .heap fun h => ?_
  have henter : Quiet (do
      Run.modifyHeap fun h => h.putAttributes v ((h.attributes v).insert name new)
      return true) :=
    (Quiet.modifyHeap _).bind fun _ => .pure _
  cases v with
  | undefined | builtin f => exact henter
  | object id =>
    dsimp only
    split
    · exact .pure _
    · split
      · exact (Quiet.put _ _).bind fun _ => .pure _
      · split
        · exact henter
        · exact .pure _
  | _ => exact .pure _

/-- An attribute is deleted quietly. -/
theorem quiet_delete (v : Value) (name : String) : Quiet (delete v name) := by
  refine .heap fun h => ?_
  split
  · exact (Quiet.modifyHeap _).bind fun _ => .pure _
  · split
    · split
      · exact .pure _
      · split
        · exact (Quiet.put _ _).bind fun _ => .pure _
        · exact .pure _
    · exact .pure _

end Attribute

/-! ## Ordinary slots -/

namespace Ordinary

/-- What can be the base of an access is found quietly. -/
theorem quiet_toObject (v : Value) : Quiet (toObject v) := by
  unfold toObject
  split
  · exact .fail _
  · exact .pure _

/-- So is what can be the key of a slot. -/
theorem quiet_propertyKey (v : Value) : Quiet (propertyKey v) := by
  refine .heap fun h => ?_
  split
  · exact .pure _
  · exact .fail _

/-- A slot of a record itself is written quietly. -/
theorem quiet_writeOwn (id : ObjectId) (k : Key) (label value : Value) :
    Quiet (writeOwn id k label value) := by
  refine .heap fun h => ?_
  split
  · split
    · exact .pure _
    · exact (Quiet.put _ _).bind fun _ => .pure _
  · exact .pure _

/-- A read is quiet up to the call of a getter. -/
theorem quiet_pendingGet (base key this : Value) : Quiet (pendingGet base key this) := by
  refine .heap fun h => ?_
  -- The base is a record, a mapping, a view of one, or anything else.
  split
  · refine (Quiet.keyOf _).bind fun k => ?_
    split
    · exact .pure _
    · split
      · exact .pure _
      · exact .failNative _
      · exact .pure _
      · exact .pure _
  · exact (Quiet.keyOf _).bind fun k => .pure _
  · exact (Quiet.keyOf _).bind fun k => .pure _
  · split
    · exact .pure _
    · split
      · exact .pure _
      · exact (Attribute.quiet_get _ _).bind fun _ => .pure _
    · exact .pure _

/-- A write is quiet up to the call of a setter. -/
theorem quiet_pendingSet (base key value this : Value) :
    Quiet (pendingSet base key value this) := by
  refine .heap fun h => ?_
  -- The base is a record, a mapping, a view of one, a list, or anything else.
  split
  · refine (Quiet.keyOf _).bind fun k => ?_
    dsimp only
    split
    · exact (quiet_writeOwn _ _ _ _).bind fun _ => .pure _
    · exact .failNative _
    · exact .pure _
    · exact .pure _
  · exact (Quiet.keyOf _).bind fun k => (Quiet.put _ _).bind fun _ => .pure _
  · exact .pure _
  · split
    · split
      · exact (Quiet.put _ _).bind fun _ => .pure _
      · exact .pure _
    · exact .pure _
  · split
    · split
      · exact .pure _
      · exact (Attribute.quiet_set _ _ _).bind fun _ => .pure _
    · exact .pure _

/-- A delete is quiet up to what the host does about an attribute. -/
theorem quiet_pendingDelete (base key : Value) : Quiet (pendingDelete base key) := by
  refine .heap fun h => ?_
  split
  · refine (Quiet.keyOf _).bind fun k => ?_
    split
    · exact .pure _
    · split
      · exact .pure _
      · exact (Quiet.put _ _).bind fun _ => .pure _
  · exact (Quiet.keyOf _).bind fun k => (Quiet.put _ _).bind fun _ => .pure _
  · exact (Quiet.keyOf _).bind fun k => .pure _
  · split
    · exact .pure _
    · split
      · exact .pure _
      · split
        · exact (Attribute.quiet_delete _ _).bind fun _ => .pure _
        · exact .pure _
    · exact .pure _

end Ordinary

/-! ## Handlers -/

namespace Resolver

/-- What a resolver has of its own is looked up quietly. -/
theorem quiet_own (resolver : Value) (kind : AccessKind) : Quiet (own resolver kind) := by
  refine .heap fun h => ?_
  -- Of a record the symbol is put into words, of a class a method may be made, and no call is.
  split
  · dsimp only
    split
    · exact (Quiet.inspect _).bind fun _ => .pure _
    · split
      · exact .pure _
      · exact (Given.quiet_toValue _).bind fun _ => .pure _
  · split
    · exact .pure _
    · exact (Given.quiet_toValue _).bind fun _ => .pure _
  · exact (Attribute.quiet_get _ _).bind fun _ => .pure _

/-- So is its handler. -/
theorem quiet_selfAttached (resolver : Value) (kind : AccessKind) :
    Quiet (selfAttached resolver kind) := by
  refine (quiet_own resolver kind).bind fun found => ?_
  split
  · exact .pure _
  · exact .pure _
  · refine .heap fun h => ?_
    split
    · exact .pure _
    · exact .fail _

/-- The search for a handler calls nothing. -/
theorem quiet_handler (resolver : Value) (kind : AccessKind) : Quiet (handler resolver kind) := by
  refine (quiet_selfAttached resolver kind).bind fun found => ?_
  cases found with
  | some f => exact .pure _
  | none =>
    refine .get (fun m => ?_) fun _ _ => rfl
    split
    · exact .pure _
    · exact .fail _

end Resolver

/-! ## References -/

/-- The reference to a slot is made quietly. -/
theorem Reference.quiet_property (base name : Value) (strict : Bool) (this : Value)
    (isSuper : Bool) : Quiet (Reference.property base name strict this isSuper) := by
  unfold Reference.property
  split
  · exact .fail _
  · exact .heap fun h => .pure _

namespace Environment

/-- The environment that binds a name is found quietly. -/
theorem quiet_owner (env name : Value) : Quiet (owner env name) := by
  refine .heap fun h => ?_
  split
  · exact .failNative _
  · exact (Quiet.keyOf _).bind fun k => .pure _

/-- A bound value is looked up quietly. -/
theorem quiet_lookup (env name : Value) : Quiet (lookup env name) := by
  refine .heap fun h => ?_
  split
  · exact .failNative _
  · refine (Quiet.keyOf _).bind fun k => ?_
    split
    · exact .pure _
    · exact .failNative _

/-- A name is bound quietly. -/
theorem quiet_assign (env name value : Value) : Quiet (assign env name value) := by
  refine .heap fun h => ?_
  split
  · exact .failNative _
  · exact (Quiet.keyOf _).bind fun k => .put _ _

/-- A name is removed quietly. -/
theorem quiet_remove (env name : Value) : Quiet (remove env name) := by
  refine .heap fun h => ?_
  split
  · exact .failNative _
  · exact (Quiet.keyOf _).bind fun k => (Quiet.put _ _).bind fun _ => .pure _

end Environment

namespace Dispatch

/-- Tracing an ordinary access makes no call. -/
theorem quiet_noteOrdinary (word : String) (key : Value) : Quiet (noteOrdinary word key) :=
  (Quiet.inspect key).bind fun _ => .note (.pure _)

/-- Nor does tracing a virtual one. -/
theorem quiet_noteVirtual (word : String) (resolver : Value) (handler : Handler) :
    Quiet (noteVirtual word resolver handler) :=
  .note (.heap fun _ => .pure _)

/-- The name of a binding is put into words only for the trace. -/
theorem quiet_noteBinding {name : Value} {line : String → List String} :
    Quiet (Run.note (do return line (← Run.text name))) :=
  .note ((Quiet.looks (.text name)).bind fun _ => .pure _)

/-- A chain calls nothing before it is read. -/
theorem quiet_chain (base resolver : Value) (strict : Bool) :
    Quiet (chain base resolver strict) := by
  refine (Ordinary.quiet_toObject base).bind fun base => ?_
  refine (Reference.quiet_property _ _ _ _ _).bind fun ref => ?_
  dsimp only
  split
  · exact (Quiet.inspect resolver).bind fun _ => (Quiet.note (.pure _)).bind fun _ => .pure _
  · exact .pure _

/-- The reference to a name is made quietly. -/
theorem quiet_binding (env name : Value) (strict : Bool) : Quiet (binding env name strict) :=
  (Environment.quiet_owner env name).bind fun _ => .pure _

/-! ## First halves -/

/-- Reading a reference is quiet up to the call that is pending. -/
theorem quiet_pendingRead (ref : Reference) : Quiet (pendingRead ref) := by
  unfold pendingRead
  split
  · split
    · exact .fail _
    · exact quiet_noteBinding.bind fun _ =>
        (Environment.quiet_lookup _ _).bind fun _ => .pure _
  · exact (quiet_noteOrdinary _ _).bind fun _ => Ordinary.quiet_pendingGet _ _ _
  · exact (Resolver.quiet_handler _ _).bind fun handler =>
      (quiet_noteVirtual _ _ _).bind fun _ => .pure _

/-- Writing a reference is quiet up to the call that is pending. -/
theorem quiet_pendingWrite (ref : Reference) (value : Value) : Quiet (pendingWrite ref value) := by
  unfold pendingWrite
  split
  · split
    · split
      · exact .fail _
      · refine quiet_noteBinding.bind fun _ => .get (fun m => ?_) fun _ _ => rfl
        exact (Environment.quiet_assign _ _ _).bind fun _ => .pure _
    · exact quiet_noteBinding.bind fun _ =>
        (Environment.quiet_assign _ _ _).bind fun _ => .pure _
  · refine (quiet_noteOrdinary _ _).bind fun _ => ?_
    refine (Ordinary.quiet_pendingSet _ _ _ _).bind fun pending => ?_
    split
    · exact (Pending.quiet_settle _).bind fun _ => .pure _
    · exact .pure _
  · exact (Resolver.quiet_handler _ _).bind fun handler =>
      (quiet_noteVirtual _ _ _).bind fun _ => .pure _

/-- Deleting a reference is quiet up to the call that is pending. -/
theorem quiet_pendingDelete (ref : Reference) : Quiet (pendingDelete ref) := by
  unfold pendingDelete
  split
  · exact .fail _
  · split
    · split
      · exact .pure _
      · exact quiet_noteBinding.bind fun _ =>
          (Environment.quiet_remove _ _).bind fun _ => .pure _
    · refine (quiet_noteOrdinary _ _).bind fun _ => ?_
      refine (Ordinary.quiet_pendingDelete _ _).bind fun pending => ?_
      split
      · exact (Pending.quiet_settle _).bind fun _ => .pure _
      · exact .pure _
    · exact (Resolver.quiet_handler _ _).bind fun handler =>
        (quiet_noteVirtual _ _ _).bind fun _ => .pure _

end Dispatch

end ChainScript
