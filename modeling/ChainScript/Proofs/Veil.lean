import ChainScript.Proofs.FieldAction
import ChainScript.Proofs.QuietLibrary

/-!
# Runs behind a veil

A veil says which marks look the same: those that differ in the node that is current, for example,
or those that differ in the log of host calls. Since no run looks at the marks, a run does the same
on machines whose marks look the same, and leaves machines of which that is true again. Visiting a
node, recording a call and adding to the trace are the only steps that touch a mark, and a veil is
kept by each.

The relation is between two actions, so that the calls which one makes may be replaced by others
that do the same behind the veil.
-/

namespace ChainScript

open Run (on Quiet)

/-- Which marks look the same. -/
structure Veil where
  same : Marks → Marks → Prop
  visit : ∀ {j k : Marks}, same j k → ∀ n, same (j.visit n) (k.visit n)
  record : ∀ {j k : Marks}, same j k → ∀ call, same (j.record call) (k.record call)
  noting : ∀ {j k : Marks}, same j k → ∀ lines, same (j.noting lines) (k.noting lines)

namespace Veil

/-- The veil that hides which node is current. -/
def ofCurrent : Veil where
  same j k := k.log = j.log ∧ k.trace = j.trace
  visit h _ := h
  record h _ := ⟨congrArg (· ++ _) h.1, h.2⟩
  noting h _ := ⟨h.1, congrArg (· ++ _) h.2⟩

/-- The veil that hides the log of host calls. -/
def ofLog : Veil where
  same j k := k.current = j.current ∧ k.trace = j.trace
  visit h _ := ⟨rfl, h.2⟩
  record h _ := h
  noting h _ := ⟨h.1, congrArg (· ++ _) h.2⟩

variable {V : Veil} {α β : Type}

/-- Two actions do the same on machines whose marks look the same, and leave such machines. -/
def Alike (V : Veil) (x y : Run α) : Prop :=
  ∀ m k, V.same m.marks k → ∃ k', V.same (on x m).2.marks k' ∧
    on y (m.marked k) = ((on x m).1, (on x m).2.marked k')

/-- Two callers whose calls do the same behind the veil. -/
def Callers (V : Veil) (call call' : Caller) : Prop :=
  ∀ f arguments, V.Alike (call f arguments) (call' f arguments)

namespace Alike

/-- A quiet action adds the same lines to both traces, so the marks look the same afterwards. -/
theorem quiet {x : Run α} (hx : Quiet x) : V.Alike x x := by
  intro m k hk
  obtain ⟨lines, hmarks, hmarked⟩ := hx.exists_marks_eq m
  refine ⟨k.noting lines, ?_, hmarked k⟩
  rw [hmarks]
  exact V.noting hk lines

/-- The same answer is given under both machines. -/
theorem pure (a : α) : V.Alike (Pure.pure a) (Pure.pure a) := quiet (.pure a)

/-- Actions that are alike are alike in a row. -/
theorem bind {x y : Run α} {f g : α → Run β} (hxy : V.Alike x y)
    (hfg : ∀ a, V.Alike (f a) (g a)) : V.Alike (x >>= f) (y >>= g) := by
  intro m k hk
  obtain ⟨k', hk', hy⟩ := hxy m k hk
  rw [Run.on_bind, Run.on_bind, hy]
  rcases hx : on x m with ⟨e | a, m'⟩
  · rw [hx] at hk'
    exact ⟨k', hk', rfl⟩
  · rw [hx] at hk'
    exact hfg a m' k' hk'

/-- What follows a quiet action is alike for each of its values. -/
theorem after {x : Run α} {f g : α → Run β} (hx : Quiet x) (hfg : ∀ a, V.Alike (f a) (g a)) :
    V.Alike (x >>= f) (x >>= g) :=
  (quiet hx).bind hfg

/-- What goes on alike from every heap goes on alike from the one that is there. -/
theorem heap {f g : Heap → Run β} (hfg : ∀ h, V.Alike (f h) (g h)) :
    V.Alike (Run.heap >>= f) (Run.heap >>= g) :=
  after (.looks .heap) hfg

/-- What follows the machine may use what is no mark of it. -/
theorem get {f g : Machine → Run β} (hfg : ∀ m, V.Alike (f m) (g m))
    (hmarks : ∀ m k, g (m.marked k) = g m) :
    V.Alike (MonadState.get >>= f) (MonadState.get >>= g) := by
  intro m k hk
  obtain ⟨k', hk', hg⟩ := hfg m m k hk
  refine ⟨k', hk', ?_⟩
  show on (g (m.marked k)) (m.marked k) = _
  rw [hmarks, hg]
  rfl

/-- Both fail with the same fault. -/
theorem fail (fault : Fault) : V.Alike (Run.fail fault : Run α) (Run.fail fault) :=
  quiet (.fail fault)

/-- Both fail in the same way of the host's own. -/
theorem failNative (kind : FaultKind) :
    V.Alike (Run.failNative kind : Run α) (Run.failNative kind) :=
  quiet (.failNative kind)

/-! ## Marks that are set -/

/-- A node is visited on both sides. -/
theorem visit (n : Node) : V.Alike (Run.visit n) (Run.visit n) :=
  fun _ _ hk => ⟨_, V.visit hk n, rfl⟩

/-- A host call is recorded on both sides. -/
theorem record (name : Value) (arguments : List Value) :
    V.Alike (Invoke.record name arguments) (Invoke.record name arguments) :=
  fun _ _ hk => ⟨_, V.record hk ⟨name, arguments⟩, rfl⟩

/-- A strictness that is put back is put back on both sides. -/
theorem withStrict {x y : Run α} (strict : Bool) (hxy : V.Alike x y) :
    V.Alike (Run.withStrict strict x) (Run.withStrict strict y) := by
  intro m k hk
  obtain ⟨k', hk', hy⟩ := hxy (m.strictly (m.strict || strict)) k hk
  refine ⟨k', ?_, ?_⟩
  · rw [Run.on_withStrict]
    exact hk'
  · rw [Run.on_withStrict, Run.on_withStrict]
    have hm : (m.marked k).strictly ((m.marked k).strict || strict)
        = (m.strictly (m.strict || strict)).marked k := rfl
    rw [hm, hy]
    rfl

/-- The call that is pending is made on both sides. -/
theorem resolve {call call' : Caller} (hcall : V.Callers call call') (pending : Pending α) :
    V.Alike (pending.resolve call) (pending.resolve call') := by
  cases pending with
  | done answer => exact .pure _
  | call f arguments finish =>
    exact (hcall f arguments).bind fun _ => .quiet (Pending.quiet_settle _)

/-- A fault is caught on both sides. -/
theorem catching {x y : Run α} (hxy : V.Alike x y) (guard : Guard) (kinds : FaultKind → Bool)
    (otherwise : α) :
    V.Alike (Run.catching guard kinds x otherwise) (Run.catching guard kinds y otherwise) := by
  intro m k hk
  obtain ⟨k', hk', hy⟩ := hxy m k hk
  rw [Run.catching, Run.catching, Run.on_tryCatch, Run.on_tryCatch, hy]
  rcases hx : on x m with ⟨e | a, m'⟩
  · rw [hx] at hk'
    -- What is done about the fault is quiet.
    have hcaught : Quiet (Run.catching guard kinds (throw e : Run α) otherwise) :=
      .catching guard kinds (.of_marked fun _ _ => rfl) otherwise
    exact quiet hcaught m' k' hk'
  · rw [hx] at hk'
    exact ⟨k', hk', rfl⟩

end Alike

variable {call call' : Caller}

/-! ## Accesses -/

/-- An ordinary read goes alike with callers that do. -/
theorem alike_ordinaryGet (hcall : V.Callers call call') (base key this : Value) :
    V.Alike (Ordinary.get call base key this) (Ordinary.get call' base key this) := by
  rw [Ordinary.get_eq, Ordinary.get_eq]
  exact .after (Ordinary.quiet_pendingGet _ _ _) (.resolve hcall)

/-- So does an ordinary write. -/
theorem alike_ordinarySet (hcall : V.Callers call call') (base key value this : Value) :
    V.Alike (Ordinary.set call base key value this) (Ordinary.set call' base key value this) := by
  rw [Ordinary.set_eq, Ordinary.set_eq]
  exact .after (Ordinary.quiet_pendingSet _ _ _ _) (.resolve hcall)

/-- So does an ordinary delete. -/
theorem alike_ordinaryDelete (hcall : V.Callers call call') (base key : Value) :
    V.Alike (Ordinary.delete call base key) (Ordinary.delete call' base key) := by
  rw [Ordinary.delete_eq, Ordinary.delete_eq]
  exact .after (Ordinary.quiet_pendingDelete _ _) (.resolve hcall)

/-- So does reading a reference. -/
theorem alike_read (hcall : V.Callers call call') (ref : Reference) :
    V.Alike (Dispatch.read call ref) (Dispatch.read call' ref) := by
  rw [Dispatch.read_eq, Dispatch.read_eq]
  exact .after (Dispatch.quiet_pendingRead ref) (.resolve hcall)

/-- So does writing one. -/
theorem alike_write (hcall : V.Callers call call') (ref : Reference) (value : Value) :
    V.Alike (Dispatch.write call ref value) (Dispatch.write call' ref value) := by
  rw [Dispatch.write_eq, Dispatch.write_eq]
  exact .after (Dispatch.quiet_pendingWrite ref value) (.resolve hcall)

/-- So does deleting one. -/
theorem alike_delete (hcall : V.Callers call call') (ref : Reference) :
    V.Alike (Dispatch.delete call ref) (Dispatch.delete call' ref) := by
  rw [Dispatch.delete_eq, Dispatch.delete_eq]
  exact .after (Dispatch.quiet_pendingDelete ref) (.resolve hcall)

/-! ## References -/

/-- The reference to a name is made alike. -/
theorem alike_bindingReference (env name : Value) :
    V.Alike (Eval.bindingReference env name) (Eval.bindingReference env name) :=
  .get (fun _ => .quiet (Dispatch.quiet_binding _ _ _)) fun _ _ => rfl

/-- A reference to a property that is made as strict as the run is. -/
theorem alike_propertyReference (base name this : Value) (isSuper : Bool) :
    V.Alike (do Reference.property base name (← get).strict this isSuper)
      (do Reference.property base name (← get).strict this isSuper) :=
  .get (fun _ => .quiet (Reference.quiet_property _ _ _ _ _)) fun _ _ => rfl

/-- So is the reference to a member, if its object comes alike. -/
theorem alike_memberReference {x y : Run Value} (hxy : V.Alike x y) (name : Value) :
    V.Alike (Eval.memberReference x name) (Eval.memberReference y name) :=
  hxy.bind fun v => .after (Ordinary.quiet_toObject v) fun _ => alike_propertyReference _ _ _ _

/-- So is the reference to an index, if its operands come alike. -/
theorem alike_indexReference {x y x' y' : Run Value} (hxy : V.Alike x y) (hxy' : V.Alike x' y') :
    V.Alike (Eval.indexReference x x') (Eval.indexReference y y') := by
  refine hxy.bind fun v => .after (Ordinary.quiet_toObject v) fun base => ?_
  exact hxy'.bind fun k => .after (Ordinary.quiet_propertyKey k) fun _ =>
    alike_propertyReference _ _ _ _

/-- So is the reference of a chain, if its operands come alike. -/
theorem alike_chainReference {x y x' y' : Run Value} (hxy : V.Alike x y) (hxy' : V.Alike x' y') :
    V.Alike (Eval.chainReference x x') (Eval.chainReference y y') :=
  hxy.bind fun _ => hxy'.bind fun _ =>
    .get (fun _ => .quiet (Dispatch.quiet_chain _ _ _)) fun _ _ => rfl

/-- So is the reference to a member of the parent. -/
theorem alike_superReference (hcall : V.Callers call call') (env name : Value)
    (loc : Option Location) :
    V.Alike (Eval.superReference call env name loc) (Eval.superReference call' env name loc) := by
  refine .get (fun m => ?_) fun _ _ => rfl
  refine .after (Dispatch.quiet_binding _ _ _) fun ref => ?_
  refine (alike_read hcall ref).bind fun this => .heap fun h => ?_
  split
  · exact alike_propertyReference _ _ _ _
  · exact .fail _

/-- Reading at a node goes alike if the references come alike. -/
theorem alike_readAt (hcall : V.Callers call call') (n : Node) {x y : Run Reference}
    (hxy : V.Alike x y) : V.Alike (x >>= Eval.readAt call n) (y >>= Eval.readAt call' n) :=
  hxy.bind fun ref => (Alike.visit n).bind fun _ => alike_read hcall ref

/-! ## Nodes -/

mutual

/-- A node evaluates alike if the calls on its way do. -/
theorem alike_eval (hcall : V.Callers call call') (env : Value) :
    ∀ n : Node, V.Alike (Eval.eval call env n) (Eval.eval call' env n)
  | .value v => by
    rw [Eval.eval, Eval.eval]
    exact .pure v
  | .list items => by
    rw [Eval.eval, Eval.eval]
    refine .after (Node.quiet_settleAll items) fun settled => ?_
    exact .after (.mapM Run.quiet_ofNode settled) fun _ => .quiet (.alloc _)
  | .literal v loc => by
    rw [Eval.eval, Eval.eval]
    exact (Alike.visit _).bind fun _ => .pure v
  | .identifier name loc => by
    rw [Eval.eval, Eval.eval]
    exact (Alike.visit _).bind fun _ => alike_readAt hcall _ (alike_bindingReference env name)
  | .member obj name loc => by
    rw [Eval.eval, Eval.eval]
    refine (Alike.visit _).bind fun _ => alike_readAt hcall _ ?_
    exact alike_memberReference (alike_eval hcall env obj) name
  | .index obj key loc => by
    rw [Eval.eval, Eval.eval]
    refine (Alike.visit _).bind fun _ => alike_readAt hcall _ ?_
    exact alike_indexReference (alike_eval hcall env obj) (alike_eval hcall env key)
  | .chain obj resolver loc => by
    rw [Eval.eval, Eval.eval]
    refine (Alike.visit _).bind fun _ => alike_readAt hcall _ ?_
    exact alike_chainReference (alike_eval hcall env obj) (alike_eval hcall env resolver)
  | .superMember name loc => by
    rw [Eval.eval, Eval.eval]
    exact (Alike.visit _).bind fun _ =>
      alike_readAt hcall _ (alike_superReference hcall env name loc)
  | .assign target v loc => by
    rw [Eval.eval, Eval.eval]
    refine (Alike.visit _).bind fun _ => ?_
    split
    · refine (alike_reference hcall env target).bind fun ref => ?_
      refine (alike_eval hcall env v).bind fun new => (Alike.visit _).bind fun _ => ?_
      exact (alike_write hcall ref new).bind fun _ => .pure new
    · exact .fail _
  | .delete target loc => by
    unfold Eval.eval
    refine (Alike.visit _).bind fun _ => ?_
    split
    · exact .fail _
    · split
      · refine (alike_reference hcall env target).bind fun ref => (Alike.visit _).bind fun _ => ?_
        exact (alike_delete hcall ref).bind fun _ => .pure _
      · exact (alike_eval hcall env target).bind fun _ => .pure _
  | .call callee args loc => by
    rw [Eval.eval, Eval.eval]
    refine (Alike.visit _).bind fun _ => (alike_eval hcall env callee).bind fun f => ?_
    refine (alike_evalAll hcall env args).bind fun arguments => .heap fun h => ?_
    split
    · refine .after (.note ?_) fun _ => hcall f arguments
      exact (Quiet.looks (.text _)).bind fun _ => .pure _
    · exact .fail _
  | .objectLiteral entries loc => by
    rw [Eval.eval, Eval.eval]
    refine (Alike.visit _).bind fun _ => .after (.alloc _) fun record => ?_
    exact (alike_evalEntries hcall env record entries).bind fun _ => .pure _
  | .program body strict loc => by
    rw [Eval.eval, Eval.eval]
    exact (Alike.visit _).bind fun _ => .withStrict strict (alike_evalBody hcall env .undefined body)
  | .other kind loc => by
    rw [Eval.eval, Eval.eval]
    exact (Alike.visit _).bind fun _ => .fail _

/-- A node denotes its reference alike if the calls on the way do. -/
theorem alike_reference (hcall : V.Callers call call') (env : Value) :
    ∀ n : Node, V.Alike (Eval.reference call env n) (Eval.reference call' env n)
  | .identifier name _ => by
    rw [Eval.reference, Eval.reference]
    exact alike_bindingReference env name
  | .member obj name _ => by
    rw [Eval.reference, Eval.reference]
    exact alike_memberReference (alike_eval hcall env obj) name
  | .index obj key _ => by
    rw [Eval.reference, Eval.reference]
    exact alike_indexReference (alike_eval hcall env obj) (alike_eval hcall env key)
  | .chain obj resolver _ => by
    rw [Eval.reference, Eval.reference]
    exact alike_chainReference (alike_eval hcall env obj) (alike_eval hcall env resolver)
  | .superMember name loc => by
    rw [Eval.reference, Eval.reference]
    exact alike_superReference hcall env name loc
  | .literal .. | .assign .. | .delete .. | .call .. | .objectLiteral .. | .program .. | .other ..
  | .value .. | .list .. => .fail _

/-- Nodes in a row are evaluated alike. -/
theorem alike_evalAll (hcall : V.Callers call call') (env : Value) :
    ∀ ns : List Node, V.Alike (Eval.evalAll call env ns) (Eval.evalAll call' env ns)
  | [] => by
    rw [Eval.evalAll, Eval.evalAll]
    exact .pure _
  | n :: ns => by
    rw [Eval.evalAll, Eval.evalAll]
    exact (alike_eval hcall env n).bind fun _ => (alike_evalAll hcall env ns).bind fun _ => .pure _

/-- The entries of an object literal are evaluated alike. -/
theorem alike_evalEntries (hcall : V.Callers call call') (env record : Value) :
    ∀ entries : List (Value × Node),
      V.Alike (Eval.evalEntries call env record entries) (Eval.evalEntries call' env record entries)
  | [] => by
    rw [Eval.evalEntries, Eval.evalEntries]
    exact .pure _
  | (name, n) :: rest => by
    rw [Eval.evalEntries, Eval.evalEntries]
    refine (alike_eval hcall env n).bind fun v => ?_
    refine .after (Ordinary.quiet_propertyKey name) fun key => .after (.keyOf _) fun k => ?_
    split
    · exact .after (Ordinary.quiet_writeOwn _ _ _ _) fun _ => alike_evalEntries hcall env _ rest
    · exact alike_evalEntries hcall env _ rest

/-- Statements are evaluated alike. -/
theorem alike_evalBody (hcall : V.Callers call call') (env last : Value) :
    ∀ ns : List Node, V.Alike (Eval.evalBody call env last ns) (Eval.evalBody call' env last ns)
  | [] => by
    rw [Eval.evalBody, Eval.evalBody]
    exact .pure _
  | n :: ns => by
    rw [Eval.evalBody, Eval.evalBody]
    exact (alike_eval hcall env n).bind fun v => alike_evalBody hcall env v ns

end

/-- A program is run alike. -/
theorem alike_run (hcall : V.Callers call call') (env : Value) (n : Node) :
    V.Alike (Eval.run call env n) (Eval.run call' env n) := by
  unfold Eval.run
  split
  · exact .withStrict _ (alike_evalBody hcall env .undefined _)
  · exact alike_eval hcall env n

/-! ## Calls -/

/-- A method that a store shows is called alike. -/
theorem alike_callShown (hcall : V.Callers call call') (store : Value) (name : String)
    (arguments : List Value) :
    V.Alike (Invoke.callShown call store name arguments)
      (Invoke.callShown call' store name arguments) := by
  refine .after (Attribute.quiet_get store name) fun found => ?_
  cases found with
  | some f => exact hcall f arguments
  | none => exact .failNative _

/-- A script is run alike. -/
theorem alike_script (hcall : V.Callers call call') (params : List String) (body : Value)
    (arguments : List Value) :
    V.Alike (Invoke.script call params body arguments)
      (Invoke.script call' params body arguments) := by
  refine .get (fun m => ?_) fun _ _ => rfl
  refine .after (.alloc _) fun env => .after (Run.quiet_programOf body) fun program => ?_
  exact alike_run hcall env program

/-- What a program of the host requests is done alike. The induction is on the program. -/
theorem alike_perform (hcall : V.Callers call call') (program : HostProgram) :
    V.Alike (Invoke.perform call program) (Invoke.perform call' program) := by
  induction program with
  | answer v => exact .pure v
  | raise failure => exact .fail _
  | get base key this next ih => exact (alike_ordinaryGet hcall _ _ _).bind ih
  | set base key value this next ih => exact (alike_ordinarySet hcall _ _ _ _).bind ih
  | delete base key next ih => exact (alike_ordinaryDelete hcall _ _).bind ih
  | chain base resolver strict next ih => exact .after (Dispatch.quiet_chain _ _ _) ih
  | binding env name strict next ih => exact .after (Dispatch.quiet_binding _ _ _) ih
  | read ref next ih => exact (alike_read hcall ref).bind ih
  | write ref value next ih => exact (alike_write hcall ref value).bind fun _ => ih
  | remove ref next ih => exact (alike_delete hcall ref).bind ih
  | call f arguments next ih => exact (hcall f arguments).bind ih
  | scope parent next ih => exact .after (Invoke.quiet_scope parent) ih
  | run env tree next ih =>
    exact .after (Run.quiet_programOf tree) fun program => (alike_run hcall env program).bind ih
  | record name arguments next ih => exact (Alike.record _ _).bind fun _ => ih
  | items v next ih => exact .after (Run.quiet_iterate v) ih
  | refill list items next ih => exact .after (Invoke.quiet_refill list items) fun _ => ih
  | attach target onGet onSet onDelete next ih =>
    exact .after (Host.quiet_attach target onGet onSet onDelete) fun _ => ih
  | detach target next ih => exact .after (Host.quiet_detach target) ih
  | suspend once held body next _ ih => exact .after (.alloc _) ih

/-- What was put off is done alike when it is awaited. -/
theorem alike_await (hcall : V.Callers call call') (v : Value) :
    V.Alike (Invoke.await call v) (Invoke.await call' v) := by
  refine .heap fun h => ?_
  split
  · split
    · exact .after (.put _ _) fun _ => alike_perform hcall _
    · exact alike_perform hcall _
  · exact .failNative _

/-! ## Functions that are there from the start -/

/-- The function behind an attribute is called alike. -/
theorem alike_callPart (hcall : V.Callers call call') (part : ClassPart) (arguments : List Value) :
    V.Alike (Protocol.callPart call part arguments) (Protocol.callPart call' part arguments) := by
  refine .heap fun h => ?_
  split
  · exact hcall _ _
  · exact .failNative _

/-- An attribute of the host's own is read alike. -/
theorem alike_protocolRead (hcall : V.Callers call call') (guard : Guard) (v : Value)
    (name : String) :
    V.Alike (Protocol.read guard call v name) (Protocol.read guard call' v name) := by
  refine .heap fun h => ?_
  split
  · exact alike_callPart hcall _ _
  · exact .quiet (Protocol.fieldAction_readField _ _ _).quiet

/-- It is set alike. -/
theorem alike_protocolWrite (hcall : V.Callers call call') (guard : Guard) (v : Value)
    (name : String) (new : Value) :
    V.Alike (Protocol.write guard call v name new) (Protocol.write guard call' v name new) := by
  refine .heap fun h => ?_
  split
  · exact (alike_callPart hcall _ _).bind fun _ => .pure _
  · exact .quiet (Protocol.fieldAction_writeField _ _ _ _).quiet

/-- It is deleted alike. -/
theorem alike_protocolErase (hcall : V.Callers call call') (guard : Guard) (v : Value)
    (name : String) :
    V.Alike (Protocol.erase guard call v name) (Protocol.erase guard call' v name) := by
  refine .heap fun h => ?_
  split
  · exact (alike_callPart hcall _ _).bind fun _ => .pure _
  · exact .quiet (Protocol.fieldAction_eraseField _ _ _).quiet

/-- An access to an attribute of the host's own is served alike. -/
theorem alike_serve (hcall : V.Callers call call') (guard : Guard) (name : String)
    (kind : AccessKind) (arguments : List Value) :
    V.Alike (Protocol.serve guard call name kind arguments)
      (Protocol.serve guard call' name kind arguments) := by
  unfold Protocol.serve
  split
  · exact (alike_protocolRead hcall _ _ _).catching _ _ _
  · exact Alike.catching ((alike_protocolWrite hcall _ _ _ _).bind fun _ => .pure _) _ _ _
  · refine Alike.bind (Alike.catching ((alike_protocolRead hcall _ _ _).bind fun _ => .pure _) _ _ _)
      fun there => ?_
    split
    · exact Alike.catching ((alike_protocolErase hcall _ _ _).bind fun _ => .pure _) _ _ _
    · exact .pure _
  · exact .failNative _

/-- A function that is there from the start does the same. -/
theorem alike_builtin (hcall : V.Callers call call') (guard : Guard) (f : Builtin)
    (arguments : List Value) :
    V.Alike (Invoke.builtin guard call f arguments) (Invoke.builtin guard call' f arguments) := by
  unfold Invoke.builtin
  split
  · exact .quiet (Invoke.quiet_bind _ _)
  · exact alike_callShown hcall _ _ _
  · exact (alike_callShown hcall _ _ _).bind fun _ => .pure _
  · exact alike_callShown hcall _ _ _
  · exact .quiet (.alloc _)
  · exact alike_await hcall _
  · exact .quiet (Store.quiet_callFunction _ _ _ _)
  · exact .quiet (Library.quiet_run _ _)
  · exact alike_serve hcall _ _ _ _
  · exact .failNative _

/-- So does a method. -/
theorem alike_method (hcall : V.Callers call call') (guard : Guard) (m : Method)
    (arguments : List Value) :
    V.Alike (Invoke.method guard call m arguments) (Invoke.method guard call' m arguments) := by
  cases m with
  | store receiver operation => exact .quiet (Store.quiet_callBound _ _ _ _)
  | part receiver part => exact alike_callPart hcall _ _
  | library receiver function => exact .quiet (Library.quiet_run _ _)

/-- What a host function does goes alike. -/
theorem alike_behave (hcall : V.Callers call call') (id : ObjectId) (f : HostFunction)
    (arguments : List Value) :
    V.Alike (Invoke.behave call id f arguments) (Invoke.behave call' id f arguments) := by
  unfold Invoke.behave
  split
  · exact .quiet (.alloc _)
  · exact .pure _
  · exact .pure _
  · exact .after (.put _ _) fun _ => .pure _
  · split
    · exact alike_ordinaryGet hcall _ _ _
    · exact .failNative _
  · split
    · exact (alike_ordinarySet hcall _ _ _ _).bind fun _ => .pure _
    · exact .failNative _
  · exact .fail _
  · exact alike_script hcall _ _ _
  · exact alike_perform hcall _

/-- Every call does the same behind a veil, however deep calls may nest and whatever is barred. -/
theorem callers_guarded (V : Veil) (guard : Guard) (depth : Nat) :
    V.Callers (guarded guard depth) (guarded guard depth) := by
  -- A call at one depth makes its own calls at the depth below.
  induction depth with
  | zero => exact fun f arguments => .failNative _
  | succ depth ih =>
    intro f arguments
    unfold guarded
    split
    · exact .quiet (Invoke.quiet_construct _ _)
    · exact alike_builtin ih _ _ _
    · refine .heap fun h => ?_
      split
      · split
        · exact (Alike.record _ _).bind fun _ => alike_behave ih _ _ _
        · exact alike_behave ih _ _ _
      · exact ih _ _
      · exact .failNative _
      · exact alike_method ih _ _ _
      · exact .failNative _
    · exact .failNative _

/-- So does every call that has no guard. -/
theorem callers_invoke (V : Veil) (depth : Nat) : V.Callers (invoke depth) (invoke depth) :=
  V.callers_guarded .none depth

end Veil

end ChainScript
