import ChainScript.Proofs.LockstepCall
import ChainScript.Proofs.QuietAccess

/-!
# The quiet part of the library

Programs are read from trees, and the library, the stores and the classes work, without a call and
without visiting a node.
-/

namespace ChainScript

open Run (Quiet)

/-! ## Programs from trees -/

/-- The value of a node is made quietly. -/
theorem Run.quiet_ofNode (n : Node) : Quiet (Run.ofNode n) := by
  cases n with
  | value v => exact .pure _
  | _ => exact .alloc _

namespace Node

mutual

/-- Making the lists in a node on the heap visits no node. -/
theorem quiet_settle : ∀ n : Node, Quiet n.settle
  | .member obj name loc => by
    rw [settle]
    exact (quiet_settle obj).bind fun _ => .pure _
  | .index obj key loc => by
    rw [settle]
    exact (quiet_settle obj).bind fun _ => (quiet_settle key).bind fun _ => .pure _
  | .chain obj resolver loc => by
    rw [settle]
    exact (quiet_settle obj).bind fun _ => (quiet_settle resolver).bind fun _ => .pure _
  | .assign target v loc => by
    rw [settle]
    exact (quiet_settle target).bind fun _ => (quiet_settle v).bind fun _ => .pure _
  | .delete target loc => by
    rw [settle]
    exact (quiet_settle target).bind fun _ => .pure _
  | .call callee args loc => by
    rw [settle]
    exact (quiet_settle callee).bind fun _ => (quiet_settleAll args).bind fun _ => .pure _
  | .objectLiteral entries loc => by
    rw [settle]
    exact (quiet_settleEntries entries).bind fun _ => .pure _
  | .program body strict loc => by
    rw [settle]
    exact (quiet_settleAll body).bind fun _ => .pure _
  | .list items => by
    rw [settle]
    refine (quiet_settleAll items).bind fun settled => ?_
    exact (Quiet.mapM Run.quiet_ofNode settled).bind fun _ => (Quiet.alloc _).bind fun _ => .pure _
  | .literal .. | .identifier .. | .superMember .. | .other .. | .value .. => .pure _

/-- Nodes in a row are settled quietly. -/
theorem quiet_settleAll : ∀ ns : List Node, Quiet (settleAll ns)
  | [] => .pure _
  | n :: ns => by
    rw [settleAll]
    exact (quiet_settle n).bind fun _ => (quiet_settleAll ns).bind fun _ => .pure _

/-- The entries of an object literal are settled quietly. -/
theorem quiet_settleEntries : ∀ entries : List (Value × Node), Quiet (settleEntries entries)
  | [] => .pure _
  | (name, n) :: rest => by
    rw [settleEntries]
    exact (quiet_settle n).bind fun _ => (quiet_settleEntries rest).bind fun _ => .pure _

end

end Node

namespace Run

/-- A tree is read quietly. -/
theorem quiet_transform (tree : Value) : Quiet (transform tree) := by
  refine .heap fun h => ?_
  split
  · exact Node.quiet_settle _
  · exact .fail _

/-- Reading a program from a tree visits none of its nodes. -/
theorem quiet_programOf (tree : Value) : Quiet (programOf tree) := by
  refine (Quiet.objectOf? tree).bind fun o => ?_
  split
  · exact .pure _
  · exact (quiet_transform tree).bind fun _ => .pure _

/-! ## Iteration -/

/-- What is left to iterate of a store is found quietly. -/
theorem quiet_fromStore (store : ObjectId) (size : Nat) (part : Slot → Value) :
    Quiet (iterate.fromStore store size part) := by
  refine .heap fun h => ?_
  split
  · split
    · exact .pure _
    · exact .failNative _
  · exact .outside

/-- Values are iterated quietly. -/
theorem quiet_iterate (v : Value) : Quiet (iterate v) := by
  unfold iterate
  split
  · exact .pure _
  · refine .heap fun h => ?_
    split
    · exact .pure _
    · exact .pure _
    · exact .pure _
    · exact .pure _
    · exact .pure _
    · exact .pure _
    · refine (Quiet.put _ _).bind fun _ => ?_
      split
      · exact .pure _
      · exact quiet_fromStore _ _ _
      · exact quiet_fromStore _ _ _
    · exact .outside
    · exact .failNative _
  · exact .failNative _

/-- A pair is taken apart quietly. -/
theorem quiet_pairOf (v : Value) : Quiet (pairOf v) := by
  refine (quiet_iterate v).bind fun items => ?_
  split
  · exact .pure _
  · exact .failNative _

end Run

/-! ## The library -/

namespace Library

/-- A record is frozen quietly. -/
theorem quiet_freeze (v : Value) : Quiet (freeze v) := by
  refine .heap fun h => ?_
  split
  · exact (Quiet.put _ _).bind fun _ => .pure _
  · exact .fail _

/-- A record is made quietly. -/
theorem quiet_create (parent : Value) : Quiet (create parent) := by
  unfold create
  split
  · exact .alloc _
  · refine .heap fun h => ?_
    split
    · exact .alloc _
    · exact .fail _
  · exact .fail _

/-- The keys of a record are listed quietly. -/
theorem quiet_keys (v : Value) : Quiet (keys v) := by
  refine .heap fun h => ?_
  split
  · exact .alloc _
  · exact .fail _

/-- Whether a record has a key of its own is looked up quietly. -/
theorem quiet_hasOwn (v key : Value) : Quiet (hasOwn v key) := by
  refine .heap fun h => ?_
  split
  · exact (Quiet.keyOf _).bind fun _ => .pure _
  · exact .pure _

/-- No function of the library calls what it is given. -/
theorem quiet_run (function : LibraryFunction) (arguments : List Value) :
    Quiet (run function arguments) := by
  unfold run
  split
  · exact .alloc _
  · exact .alloc _
  · exact .alloc _
  · exact quiet_create _
  · exact quiet_create _
  · exact quiet_freeze _
  · exact (quiet_hasOwn _ _).bind fun _ => .pure _
  · exact .heap fun _ => .pure _
  · exact quiet_keys _
  · exact .failNative _

end Library

/-! ## Stores -/

namespace Store

/-- The entries of a store are looked up quietly. -/
theorem quiet_entriesOf (id : ObjectId) : Quiet (entriesOf id) := by
  refine .heap fun h => ?_
  split
  · exact .pure _
  · exact .failNative _

/-- A value is entered in a store quietly. -/
theorem quiet_set (id : ObjectId) (key value : Value) : Quiet (set id key value) := by
  refine (quiet_entriesOf id).bind fun found => ?_
  dsimp only
  split
  · exact (Quiet.looks (Pairing.looks_checkWeakKey key)).bind fun _ => .put _ _
  · exact .put _ _

/-- A key is removed from a store quietly. -/
theorem quiet_delete (id : ObjectId) (key : Value) : Quiet (delete id key) :=
  (quiet_entriesOf id).bind fun _ => (Quiet.put _ _).bind fun _ => .pure _

/-- The items of a store are listed quietly. -/
theorem quiet_items (id : ObjectId) : Quiet (items id) :=
  (quiet_entriesOf id).bind fun _ => (Quiet.mapM (fun _ => .alloc _) _).bind fun _ => .alloc _

/-- No method of a store calls what it is given. -/
theorem quiet_callMethod (id : ObjectId) (operation : StoreOperation) (arguments : List Value) :
    Quiet (callMethod id operation arguments) := by
  unfold callMethod
  split
  · exact (quiet_entriesOf id).bind fun _ => .pure _
  · exact (quiet_entriesOf id).bind fun _ => .pure _
  · exact (quiet_set _ _ _).bind fun _ => .pure _
  · exact Quiet.bind ((quiet_entriesOf id).bind fun _ => .pure _) fun _ => .pure _
  · exact (quiet_delete _ _).bind fun _ => .pure _
  · exact Quiet.bind ((quiet_entriesOf id).bind fun _ => .put _ _) fun _ => .pure _
  · exact (quiet_entriesOf id).bind fun _ => .alloc _
  · exact (quiet_entriesOf id).bind fun _ => .alloc _
  · exact quiet_items _
  · exact .failNative _

/-- A store is made quietly. -/
theorem quiet_make (weak : Bool) (source : Value) : Quiet (make weak source) := by
  refine (Quiet.alloc _).bind fun store => .heap fun h => ?_
  split
  · refine (Run.quiet_iterate source).bind fun items => ?_
    refine Quiet.bind (.forIn (fun item _ => ?_) items _) fun _ => .pure _
    refine (Run.quiet_pairOf item).bind fun pair => ?_
    dsimp only
    split
    · exact (quiet_set _ _ _).bind fun _ => .pure _
    · exact .pure _
  · exact .pure _

/-- What a value shows as the data of a store is looked up quietly. -/
theorem quiet_dataOf (v : Value) : Quiet (dataOf v) := by
  refine .heap fun h => ?_
  split
  · exact .pure _
  · exact .pure _
  · split
    · exact .outside
    · exact Attribute.quiet_get _ _

/-- What a method of stores removes, it removes quietly. -/
theorem quiet_emptyData (guard : Guard) (data : Value) : Quiet (emptyData guard data) := by
  refine .heap fun h => ?_
  split
  · dsimp only
    split
    · exact (Quiet.detour _ _).bind fun _ => (Quiet.put _ _).bind fun _ => .pure _
    · exact (Quiet.put _ _).bind fun _ => .pure _
  · exact (Quiet.put _ _).bind fun _ => .pure _
  · exact (Quiet.put _ _).bind fun _ => .pure _
  any_goals exact .failNative _
  exact .outside

/-- A method of stores changes data of another kind without a call. -/
theorem quiet_changeData (guard : Guard) (data : Value) : Quiet (changeData guard data) := by
  refine .heap fun h => ?_
  split
  · exact (Quiet.detour _ _).bind fun _ => .outside
  · exact .outside

/-- A method of stores makes no call on what is no store. -/
theorem quiet_callLent (guard : Guard) (v : Value) (operation : StoreOperation)
    (arguments : List Value) : Quiet (callLent guard v operation arguments) := by
  unfold callLent
  split
  · exact .failNative _
  · refine (quiet_dataOf v).bind fun found => ?_
    split
    · exact .failNative _
    · split
      · exact quiet_emptyData _ _
      · exact quiet_changeData _ _
      · exact quiet_changeData _ _
      · exact .outside

/-- Nor does a method of a weak store. -/
theorem quiet_callWeakLent (guard : Guard) (v : Value) : Quiet (callWeakLent guard v) := by
  refine (quiet_dataOf v).bind fun found => ?_
  split
  · exact .outside
  · exact quiet_changeData _ _

/-- Nor does a method that a store shows. -/
theorem quiet_callBound (guard : Guard) (id : ObjectId) (operation : StoreOperation)
    (arguments : List Value) : Quiet (callBound guard id operation arguments) := by
  refine .heap fun h => ?_
  split
  · exact quiet_callLent _ _ _ _
  · exact quiet_callMethod _ _ _

/-- Nor does a method that is called as a function. -/
theorem quiet_callFunction (guard : Guard) (weak : Bool) (operation : StoreOperation)
    (arguments : List Value) : Quiet (callFunction guard weak operation arguments) := by
  cases arguments with
  | nil => exact .failNative _
  | cons v rest =>
    refine .heap fun h => ?_
    split
    · split
      · exact .outside
      · exact quiet_callMethod _ _ _
    · split
      · exact quiet_callMethod _ _ _
      · exact .outside
    · split
      · exact quiet_callWeakLent _ _
      · exact quiet_callLent _ _ _ _

end Store

/-! ## Handlers -/

namespace Host

/-- A handler is attached without being called. -/
theorem quiet_givenHandler (v : Value) : Quiet (givenHandler v) := by
  unfold givenHandler
  split
  · exact .pure _
  · refine .heap fun h => ?_
    split
    · exact .pure _
    · exact .fail _

/-- Attaching handlers calls nothing. -/
theorem quiet_attach (target onGet onSet onDelete : Value) :
    Quiet (attach target onGet onSet onDelete) := by
  unfold attach
  split
  · refine (quiet_givenHandler _).bind fun _ => (quiet_givenHandler _).bind fun _ => ?_
    exact (quiet_givenHandler _).bind fun _ => (Quiet.modify fun _ _ => rfl).bind fun _ => .pure _
  · exact .fail _

/-- Nor does taking them away. -/
theorem quiet_detach (target : Value) : Quiet (detach target) := by
  unfold detach
  split
  · refine .get (fun m => ?_) fun _ _ => rfl
    exact (Quiet.modify fun _ _ => rfl).bind fun _ => .pure _
  · exact .pure _

end Host

/-! ## Classes -/

namespace Invoke

/-- The entries that a value has to give are found quietly. -/
theorem quiet_entriesOf (source : Value) : Quiet (entriesOf source) := by
  refine .heap fun h => ?_
  split
  · exact .pure _
  · exact .pure _
  · exact .pure _
  · split
    · exact .pure _
    · exact .failNative _
  · refine (Run.quiet_iterate source).bind fun items => ?_
    refine Quiet.bind (.forIn (fun item slots => ?_) items _) fun _ => .pure _
    exact (Run.quiet_pairOf item).bind fun pair => (Quiet.keyOf _).bind fun _ => .pure _

/-- Making an instance of a class calls nothing. -/
theorem quiet_construct (c : Class) (arguments : List Value) : Quiet (construct c arguments) := by
  unfold construct
  split
  all_goals first
    | exact .alloc _
    | exact .pure _
    | exact .failNative _
    | exact Store.quiet_make _ _
    | exact (Quiet.looks (.text _)).bind fun _ => .pure _
    | exact (Run.quiet_iterate _).bind fun _ => .alloc _
    | exact (quiet_entriesOf _).bind fun _ => .alloc _

/-- A function is bound quietly. -/
theorem quiet_bind (function base : Value) : Quiet (bind function base) := by
  refine .heap fun h => ?_
  split
  · exact .alloc _
  · exact .failNative _
  · exact .alloc _

/-- An environment is made quietly. -/
theorem quiet_scope (parent : Value) : Quiet (scope parent) := by
  refine .heap fun h => ?_
  split
  · exact .alloc _
  · exact .alloc _
  · exact .failNative _

/-- A list is refilled quietly. -/
theorem quiet_refill (list : Value) (items : List Value) : Quiet (refill list items) := by
  refine .heap fun h => ?_
  split
  · exact .put _ _
  · exact .failNative _

end Invoke

end ChainScript
