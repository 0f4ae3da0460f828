import ChainScript.Access.Dispatch
import ChainScript.Proofs.Quiet

/-!
# Accesses in two halves

An access looks for what serves it, and then either has its answer or makes one call. Here each
access is cut in two at that point. Its first half is quiet: it comes to the answer, or to the call
that is pending. Its second half makes the call, and finishes with what the call is answered: an
access to an attribute that the host looks after may be refused by the host, and then a strict
reference raises its fault after the call. A getter, a setter or a handler is thus called at most
once in an access, and so is what the host does about an attribute.
-/

namespace ChainScript

open Run (Quiet)

/-- What an access comes to by itself: its answer, or a call that is still to be made, with what it
comes to then, an answer or a fault. -/
inductive Pending (α : Type) where
  | done (answer : α)
  | call (f : Value) (arguments : List Value) (finish : Value → Except Fault α)

namespace Pending

variable {α β : Type}

/-- Comes to an answer, or raises a fault. -/
def settle : Except Fault α → Run α
  | .ok answer => return answer
  | .error fault => Run.fail fault

/-- Makes the call that is pending, and finishes. -/
def resolve (call : Caller) : Pending α → Run α
  | .done answer => return answer
  | .call f arguments finish => do settle (finish (← call f arguments))

end Pending

namespace Handler

/-- The call that serves an access, whose answer is made into that of the access. -/
def pending {α : Type} (handler : Handler) (arguments : List Value) (finish : Value → α) :
    Pending α :=
  .call handler.function (handler.resolver.toList ++ arguments) fun v => .ok (finish v)

end Handler

/-! ## The first halves -/

namespace Ordinary

/-- Reads a slot of a base, up to the call of a getter. -/
def pendingGet (base key this : Value) : Run (Pending Value) := do
  let h ← Run.heap
  match h.objectOf? base, base with
  | some (.record ..), .object id =>
    let k ← Run.keyOf key
    match (h.owner? k id).bind fun owner => h.ownValue? owner k with
    | none => return .done .undefined
    | some slot =>
      match accessor? h slot with
      | none => return .done slot
      | some (none, _) => Run.failNative .attributeError
      | some (some .null, _) => return .done .undefined
      | some (some getter, _) => return .call getter [receiverOf base this] .ok
  | some (.dict entries), _ | some (.proxy entries), _ =>
    return .done ((Slots.value? entries (← Run.keyOf key)).getD .undefined)
  | _, _ =>
    match key, sequence? h base with
    | .int index, some items =>
      return .done (((position? items.length index).bind (items[·]?)).getD .undefined)
    | .str name, _ =>
      if h.isForeign .get base name then return .call (.builtin (.attribute name .get)) [base] .ok
      else return .done ((← Attribute.get base name).getD .undefined)
    | _, _ => return .done .undefined

/-- Writes a slot of a base, up to the call of a setter. -/
def pendingSet (base key value this : Value) : Run (Pending Bool) := do
  let h ← Run.heap
  match h.objectOf? base, base with
  | some (.record ..), .object id =>
    let k ← Run.keyOf key
    let target := match receiverOf base this with
      | .object r => if h.isRecord (.object r) then r else id
      | _ => id
    match ((h.owner? k id).bind fun owner => h.ownValue? owner k).bind (accessor? h) with
    | none => return .done (← writeOwn target k key value)
    | some (_, none) => Run.failNative .attributeError
    | some (_, some .null) => return .done false
    | some (_, some setter) => return .call setter [receiverOf base this, value] fun _ => .ok true
  | some (.dict entries), .object id =>
    Run.put id (.dict (Slots.put entries (← Run.keyOf key) key value))
    return .done true
  | some (.proxy _), _ => return .done false
  | some (.list items), .object id =>
    match key with
    | .int index =>
      match position? items.length index with
      | some i =>
        Run.put id (.list (items.set i value))
        return .done true
      | none => return .done false
    | _ => return .done false
  | _, _ =>
    match key with
    | .str name =>
      if h.isForeign .set base name then
        return .call (.builtin (.attribute name .set)) [base, value] fun v => .ok (v == .bool true)
      else return .done (← Attribute.set base name value)
    | _ => return .done false

/-- Deletes a slot of a base, up to what the host does about an attribute. -/
def pendingDelete (base key : Value) : Run (Pending Bool) := do
  let h ← Run.heap
  match h.objectOf? base, base with
  | some (.record kind slots parent frozen), .object id =>
    let k ← Run.keyOf key
    if !Table.contains slots k then return .done true
    else if frozen then return .done false
    else
      Run.put id (.record kind (Table.erase slots k) parent frozen)
      return .done true
  | some (.dict entries), .object id =>
    Run.put id (.dict (Table.erase entries (← Run.keyOf key)))
    return .done true
  | some (.proxy entries), _ => return .done (!Table.contains entries (← Run.keyOf key))
  | _, _ =>
    match key, sequence? h base with
    | .int index, some items => return .done (position? items.length index).isNone
    | .str name, _ =>
      if h.isForeign .delete base name then
        return .call (.builtin (.attribute name .delete)) [base] fun v => .ok (v == .bool true)
      else if Attribute.has h base name then return .done (← Attribute.delete base name)
      else return .done true
    | _, _ => return .done true

end Ordinary

namespace Dispatch

/-- Reads a reference, up to the call of a getter or a handler. -/
def pendingRead (ref : Reference) : Run (Pending Value) := do
  match ref.name with
  | .binding name =>
    if !ref.resolvable then Run.fail (.unbound name ref)
    else
      Run.note (do return ["read", "binding", ← Run.text name])
      return .done (← Environment.lookup ref.base name)
  | .ordinary key =>
    noteOrdinary "read" key
    Ordinary.pendingGet ref.base key ref.thisValue
  | .virtual resolver =>
    let handler ← Resolver.handler resolver .get
    noteVirtual "read" resolver handler
    return handler.pending [ref.base] id

/-- What a write or a delete that the host carried out or refused comes to: the fault of a strict
reference, or the answer. -/
def refusal {α : Type} (ref : Reference) (fault : Fault) (answer : α) (done : Bool) :
    Except Fault α :=
  if !done && ref.strict then .error fault else .ok answer

/-- Writes a reference, up to the call of a setter or a handler. -/
def pendingWrite (ref : Reference) (value : Value) : Run (Pending Unit) := do
  match ref.name with
  | .binding name =>
    if !ref.resolvable then
      if ref.strict then Run.fail (.unboundWrite name ref)
      else
        Run.note (do return ["write", "binding", ← Run.text name, "-> new global"])
        return .done (← Environment.assign (.object (← get).globals) name value)
    else
      Run.note (do return ["write", "binding", ← Run.text name])
      return .done (← Environment.assign ref.base name value)
  | .ordinary key =>
    noteOrdinary "write" key
    match ← Ordinary.pendingSet ref.base key value ref.thisValue with
    | .done written => return .done (← Pending.settle (refusal ref (.writeRefused key ref) () written))
    | .call f arguments finish =>
      return .call f arguments fun v => (finish v).bind (refusal ref (.writeRefused key ref) ())
  | .virtual resolver =>
    let handler ← Resolver.handler resolver .set
    noteVirtual "write" resolver handler
    return handler.pending [ref.base, value] fun _ => ()

/-- Deletes a reference, up to the call of a handler. -/
def pendingDelete (ref : Reference) : Run (Pending Bool) := do
  if ref.isSuper then Run.fail (.superDelete (.reference ref))
  else match ref.name with
    | .binding name =>
      if !ref.resolvable then return .done true
      else
        Run.note (do return ["delete", "binding", ← Run.text name])
        return .done (← Environment.remove ref.base name)
    | .ordinary key =>
      noteOrdinary "delete" key
      match ← Ordinary.pendingDelete ref.base key with
      | .done deleted =>
        return .done (← Pending.settle (refusal ref (.deleteRefused key ref) deleted deleted))
      | .call f arguments finish =>
        return .call f arguments fun v =>
          (finish v).bind fun deleted => refusal ref (.deleteRefused key ref) deleted deleted
    | .virtual resolver =>
      let handler ← Resolver.handler resolver .delete
      noteVirtual "delete" resolver handler
      return handler.pending [ref.base] fun _ => true

end Dispatch

/-! ## The halves together -/

namespace Pending

variable {α β : Type} {call : Caller}

/-- An answer that is there needs no call. -/
theorem bind_resolve_done (x : Run α) : ((do return .done (← x)) >>= resolve call) = x := by
  simp only [bind_assoc, pure_bind, resolve, bind_pure]

/-- What goes on from an answer or a fault. -/
theorem settle_bind (r : Except Fault α) (f : α → Except Fault β) :
    settle (r.bind f) = settle r >>= fun a => settle (f a) := by
  cases r with
  | ok a => exact (pure_bind _ _).symm
  | error fault => rfl

end Pending

namespace Handler

/-- A handler serves an access by the call that is pending. -/
theorem resolve_pending {α : Type} (handler : Handler) (call : Caller) (finish : Value → α)
    (arguments : List Value) :
    (handler.pending arguments finish).resolve call
      = do return finish (← handler.run call arguments) :=
  rfl

end Handler

namespace Ordinary

variable (call : Caller)

/-- A read is its first half and the call of a getter, if one is pending. -/
theorem get_eq (base key this : Value) :
    get call base key this = pendingGet base key this >>= Pending.resolve call := by
  unfold get pendingGet
  rw [bind_assoc]
  refine bind_congr fun h => ?_
  -- Of records, mappings, their views and all else, only records have getters. The matches of both
  -- sides are split together or one after the other.
  split
  · simp only [*, bind_assoc]
    refine bind_congr fun k => ?_
    cases (h.owner? k _).bind fun owner => h.ownValue? owner k with
    | none => rfl
    | some slot =>
      rcases ha : accessor? h slot with _ | ⟨_ | getter, setter⟩
      · simp [ha, Pending.resolve]
      · simp only [ha]
        rfl
      · cases getter <;> simp [ha, Pending.resolve, Pending.settle]
  · simp [*, Pending.resolve]
  · simp [*, Pending.resolve]
  · split
    · simp [*, Pending.resolve]
    · try simp only [*]
      split <;> simp [Pending.resolve, Pending.settle]
    · simp [*, Pending.resolve]

/-- A write is its first half and the call of a setter, if one is pending. -/
theorem set_eq (base key value this : Value) :
    set call base key value this = pendingSet base key value this >>= Pending.resolve call := by
  unfold set pendingSet
  rw [bind_assoc]
  refine bind_congr fun h => ?_
  -- Of records, mappings, their views, lists and all else, only records have setters.
  split
  · simp only [*, bind_assoc]
    refine bind_congr fun k => ?_
    rcases ((h.owner? k _).bind fun owner => h.ownValue? owner k).bind (accessor? h) with
      _ | ⟨getter, _ | setter⟩
    · exact (Pending.bind_resolve_done _).symm
    · rfl
    · cases setter <;> simp [Pending.resolve, Pending.settle]
  · simp [*, Pending.resolve]
  · simp [*, Pending.resolve]
  · split
    · rename_i index
      cases hi : position? _ index <;> simp [*, Pending.resolve]
    · simp [*, Pending.resolve]
  · split
    · try simp only [*]
      split <;> simp [Pending.resolve, Pending.settle]
    · simp [*, Pending.resolve]

/-- A delete is its first half and what the host does about an attribute. -/
theorem delete_eq (base key : Value) :
    delete call base key = pendingDelete base key >>= Pending.resolve call := by
  unfold delete pendingDelete
  rw [bind_assoc]
  refine bind_congr fun h => ?_
  split
  · simp only [*, bind_assoc]
    refine bind_congr fun k => ?_
    split
    · rfl
    · split
      · rfl
      · simp [Pending.resolve]
  · simp [*, Pending.resolve]
  · simp [*, Pending.resolve]
  · split
    · simp [*, Pending.resolve]
    · try simp only [*]
      split
      · simp [Pending.resolve, Pending.settle]
      · split <;> simp [Pending.resolve]
    · simp [*, Pending.resolve]

end Ordinary

namespace Dispatch

variable (call : Caller)

/-- Reading a reference is its first half and the call that is pending. -/
theorem read_eq (ref : Reference) :
    read call ref = pendingRead ref >>= Pending.resolve call := by
  unfold read pendingRead
  cases hn : ref.name with
  | binding name =>
    dsimp only
    split
    · rfl
    · rw [bind_assoc, Pending.bind_resolve_done]
  | ordinary key =>
    dsimp only
    rw [bind_assoc, Ordinary.get_eq]
  | «virtual» resolver =>
    simp only [bind_assoc, pure_bind, Handler.resolve_pending, id, bind_pure]

/-- A write or a delete that was refused is a fault of a strict reference. -/
theorem settle_refusal {α : Type} (ref : Reference) (fault : Fault) (answer : α) (done : Bool) :
    Pending.settle (refusal ref fault answer done)
      = if !done && ref.strict then Run.fail fault else return answer := by
  unfold refusal
  split <;> rfl

/-- Writing a reference is its first half and the call that is pending. -/
theorem write_eq (ref : Reference) (value : Value) :
    write call ref value = pendingWrite ref value >>= Pending.resolve call := by
  unfold write pendingWrite
  cases hn : ref.name with
  | binding name =>
    dsimp only
    split
    · split
      · rfl
      · simp only [bind_assoc, pure_bind, Pending.resolve, bind_pure]
    · rw [bind_assoc, Pending.bind_resolve_done]
  | ordinary key =>
    dsimp only
    simp only [bind_assoc, Ordinary.set_eq]
    refine bind_congr fun _ => bind_congr fun pending => ?_
    cases pending with
    | done written =>
      simp only [bind_assoc, pure_bind, Pending.resolve, bind_pure, settle_refusal]
    | call f arguments finish =>
      simp only [Pending.resolve, pure_bind, bind_assoc, Pending.settle_bind, settle_refusal]
  | «virtual» resolver =>
    simp only [bind_assoc, pure_bind, Handler.resolve_pending]

/-- Deleting a reference is its first half and the call that is pending. -/
theorem delete_eq (ref : Reference) :
    delete call ref = pendingDelete ref >>= Pending.resolve call := by
  unfold delete pendingDelete
  split
  · rfl
  · cases hn : ref.name with
    | binding name =>
      dsimp only
      split
      · rfl
      · rw [bind_assoc, Pending.bind_resolve_done]
    | ordinary key =>
      dsimp only
      simp only [bind_assoc, Ordinary.delete_eq]
      refine bind_congr fun _ => bind_congr fun pending => ?_
      cases pending with
      | done deleted =>
        simp only [bind_assoc, pure_bind, Pending.resolve, bind_pure, settle_refusal]
      | call f arguments finish =>
        simp only [Pending.resolve, pure_bind, bind_assoc, Pending.settle_bind, settle_refusal]
    | «virtual» resolver =>
      simp only [bind_assoc, pure_bind, Handler.resolve_pending]

end Dispatch

end ChainScript
