import ChainScript.Proofs.Context

/-!
# Exchanging nodes in a program

Two nodes that denote places may be exchanged in a program if they may be where evaluation comes to
them: `Context.meets_fill`. A place is used in one of three ways there, which `Exchange` names. It
is read or deleted at once, or it is the target of an assignment and waits for the value.

The proof goes through the program around the hole. For each position of a node there is a lemma
that says what the node around it needs: what comes before the position ends on one machine, and
what comes after it does not see the difference.
-/

namespace ChainScript

open Run (on Meets)

/-! ## Lists of nodes -/

namespace Eval

variable {call : Caller} {env : Value}

/-- Nodes in a row are evaluated up to one of them, then that one, then those after it. -/
theorem evalAll_append (before : List Node) (n : Node) (after : List Node) :
    evalAll call env (before ++ n :: after) = (do
      let vs ← evalAll call env before
      let v ← eval call env n
      let ws ← evalAll call env after
      return vs ++ v :: ws) := by
  induction before with
  | nil => simp [evalAll]
  | cons b before ih => simp [evalAll, ih]

/-- Entries are evaluated up to one of them, and then from that one on. -/
theorem evalEntries_append (record : Value) (before : List (Value × Node)) (name : Value) (n : Node)
    (after : List (Value × Node)) :
    evalEntries call env record (before ++ (name, n) :: after) = (do
      evalEntries call env record before
      evalEntries call env record ((name, n) :: after)) := by
  induction before with
  | nil => simp [evalEntries]
  | cons b before ih =>
    cases record <;> simp [evalEntries, ih]

/-- Statements are evaluated up to one of them, then that one, then those after it. -/
theorem evalBody_append (last : Value) (before : List Node) (n : Node) (after : List Node) :
    evalBody call env last (before ++ n :: after) = (do
      let _ ← evalBody call env last before
      let v ← eval call env n
      evalBody call env v after) := by
  induction before generalizing last with
  | nil => simp [evalBody]
  | cons b before ih => simp [evalBody, ih]

section

variable {target : Node} (htarget : ∀ name loc, target ≠ .superMember name loc)
  (loc : Option Location)
include htarget

/-- A place is deleted, unless it is a member of the parent of `this`. -/
theorem eval_delete_place (hplace : target.isReference = true) :
    eval call env (.delete target loc) = (do
      Run.visit (.delete target loc)
      let ref ← reference call env target
      Run.visit (.delete target loc)
      return .bool (← Dispatch.delete call ref)) := by
  rw [eval, if_pos hplace]
  exact htarget

/-- What is no place is evaluated instead. -/
theorem eval_delete_value (hvalue : target.isReference = false) :
    eval call env (.delete target loc) = (do
      Run.visit (.delete target loc)
      let _ ← eval call env target
      return .bool true) := by
  rw [eval, hvalue]
  · rfl
  · exact htarget

end

/-- To run a place is to read it. -/
theorem run_of_isReference {n : Node} (hn : n.isReference = true) :
    run call env n = eval call env n := by
  cases n with
  | program => cases hn
  | _ => rfl

/-- The call of a value that was evaluated, with arguments that were. -/
def apply (call : Caller) (f : Value) (arguments : List Value) : Run Value := do
  let h ← Run.heap
  if h.isCallable f then
    Run.note (do
      let name ← Run.text ((h.shownName? f).getD (.str (h.typeName f)))
      return ["call", name, toString arguments.length])
    call f arguments
  else Run.fail (.notCallable f)

/-- A call evaluates its callee and its arguments, and applies the one to the others. -/
theorem eval_call (callee : Node) (args : List Node) (loc : Option Location) :
    eval call env (.call callee args loc) = (do
      Run.visit (.call callee args loc)
      let f ← eval call env callee
      let arguments ← evalAll call env args
      apply call f arguments) := by
  rw [eval]
  rfl

/-- A value is applied alike with callers that do. -/
theorem alike_apply {V : Veil} {call' : Caller} (hcall : V.Callers call call') (f : Value)
    (arguments : List Value) : V.Alike (apply call f arguments) (apply call' f arguments) := by
  refine .heap fun h => ?_
  split
  · refine .after (.note ?_) fun _ => hcall f arguments
    exact (Run.Quiet.looks (.text _)).bind fun _ => .pure _
  · exact .fail _

end Eval

/-! ## Around a part that may be exchanged -/

namespace Run.Meets

variable {call : Caller} {env : Value} {m : Machine}

/-- Where objects meet, so do the references to their member. -/
theorem memberReference {x y : Run Value} (hxy : Meets m x y) (name : Value) :
    Meets m (Eval.memberReference x name) (Eval.memberReference y name) :=
  hxy.bind fun v => .after (Ordinary.quiet_toObject v) fun _ => Veil.alike_propertyReference _ _ _ _

/-- Where objects meet, so do the references under the same key. -/
theorem indexReference {x y : Run Value} (hxy : Meets m x y) {key : Run Value}
    (hkey : Veil.butLog.Alike key key) :
    Meets m (Eval.indexReference x key) (Eval.indexReference y key) := by
  refine hxy.bind fun v => .after (Ordinary.quiet_toObject v) fun base => ?_
  exact hkey.bind fun k => .after (Ordinary.quiet_propertyKey k) fun _ =>
    Veil.alike_propertyReference _ _ _ _

/-- Where keys meet, so do the references to the same object. -/
theorem indexReference_key {obj x y : Run Value} (hobj : Veil.butLog.Alike obj obj)
    (hxy : ∀ v m₁, on obj m = (.ok v, m₁) → ∀ base m₂, on (Ordinary.toObject v) m₁ = (.ok base, m₂) →
      Meets m₂ x y) :
    Meets m (Eval.indexReference obj x) (Eval.indexReference obj y) := by
  refine .after hobj fun v m₁ hv => .after (.quiet (Ordinary.quiet_toObject v)) fun base m₂ hbase => ?_
  exact (hxy v m₁ hv base m₂ hbase).bind fun k => .after (Ordinary.quiet_propertyKey k) fun _ =>
    Veil.alike_propertyReference _ _ _ _

/-- Where objects meet, so do the virtual references with the same resolver. -/
theorem chainReference {x y : Run Value} (hxy : Meets m x y) {resolver : Run Value}
    (hresolver : Veil.butLog.Alike resolver resolver) :
    Meets m (Eval.chainReference x resolver) (Eval.chainReference y resolver) :=
  hxy.bind fun _ => hresolver.bind fun _ =>
    .get (fun _ => .quiet (Dispatch.quiet_chain _ _ _)) fun _ _ => rfl

/-- Where resolvers meet, so do the virtual references to the same object. -/
theorem chainReference_resolver {obj x y : Run Value} (hobj : Veil.butLog.Alike obj obj)
    (hxy : ∀ v m₁, on obj m = (.ok v, m₁) → Meets m₁ x y) :
    Meets m (Eval.chainReference obj x) (Eval.chainReference obj y) :=
  .after hobj fun v m₁ hv => (hxy v m₁ hv).bind fun _ =>
    .get (fun _ => .quiet (Dispatch.quiet_chain _ _ _)) fun _ _ => rfl

section

variable (hcall : Veil.butLog.Callers call call)
include hcall

/-- Two places are read alike if they denote the same. -/
theorem readAt (n n' : Node) {x y : Run Reference} (hxy : Meets m x y) :
    Meets m (do Run.visit n; let ref ← x; Eval.readAt call n ref)
      (do Run.visit n'; let ref ← y; Eval.readAt call n' ref) :=
  .visit n n' (hxy.bind fun ref => (Veil.butLog_visit n n').bind fun _ => Veil.alike_read hcall ref)

/-- Two places are assigned to alike if they denote the same. -/
theorem assign {t t' : Node} (ht : t.isReference = true) (ht' : t'.isReference = true)
    (hplace : Meets m (Eval.reference call env t) (Eval.reference call env t')) (v : Node)
    (loc : Option Location) :
    Meets m (Eval.eval call env (.assign t v loc)) (Eval.eval call env (.assign t' v loc)) := by
  rw [Eval.eval, Eval.eval, if_pos ht, if_pos ht']
  refine .visit _ _ (hplace.bind fun ref => (Veil.alike_eval hcall env v).bind fun new => ?_)
  refine (Veil.butLog_visit _ _).bind fun _ => ?_
  exact (Veil.alike_write hcall ref new).bind fun _ => .pure new

/-- Two values are assigned alike to the same place. -/
theorem assigned {t n n' : Node} (hvalue : t.isReference = true → ∀ ref m₁,
      on (Eval.reference call env t) m = (.ok ref, m₁) →
      Meets m₁ (Eval.eval call env n) (Eval.eval call env n')) (loc : Option Location) :
    Meets m (Eval.eval call env (.assign t n loc)) (Eval.eval call env (.assign t n' loc)) := by
  rw [Eval.eval, Eval.eval]
  refine .visit _ _ ?_
  split
  · rename_i ht
    refine .after (Veil.alike_reference hcall env t) fun ref m₁ href => ?_
    refine (hvalue ht ref m₁ href).bind fun new => (Veil.butLog_visit _ _).bind fun _ => ?_
    exact (Veil.alike_write hcall ref new).bind fun _ => .pure new
  · exact .fail (.refl _)

/-- Two places are deleted alike if they denote the same. -/
theorem delete {t t' : Node} (hsuper : ∀ name loc, t ≠ .superMember name loc)
    (hsuper' : ∀ name loc, t' ≠ .superMember name loc) (ht : t.isReference = true)
    (ht' : t'.isReference = true)
    (hplace : Meets m (Eval.reference call env t) (Eval.reference call env t'))
    (loc : Option Location) :
    Meets m (Eval.eval call env (.delete t loc)) (Eval.eval call env (.delete t' loc)) := by
  rw [Eval.eval_delete_place hsuper _ ht, Eval.eval_delete_place hsuper' _ ht']
  refine .visit _ _ (hplace.bind fun ref => (Veil.butLog_visit _ _).bind fun _ => ?_)
  exact (Veil.alike_delete hcall ref).bind fun _ => .pure _

/-- What is called is found alike. -/
theorem callee {f f' : Node} (hf : Meets m (Eval.eval call env f) (Eval.eval call env f'))
    (args : List Node) (loc : Option Location) :
    Meets m (Eval.eval call env (.call f args loc)) (Eval.eval call env (.call f' args loc)) := by
  rw [Eval.eval_call, Eval.eval_call]
  refine .visit _ _ (hf.bind fun v => (Veil.alike_evalAll hcall env args).bind fun vs => ?_)
  exact Eval.alike_apply hcall v vs

/-- An argument is found alike, from where the callee and the arguments before it leave off. -/
theorem argument {f n n' : Node} {before : List Node} (harg : ∀ v m₁,
      on (Eval.eval call env f) m = (.ok v, m₁) → ∀ vs m₂,
      on (Eval.evalAll call env before) m₁ = (.ok vs, m₂) →
      Meets m₂ (Eval.eval call env n) (Eval.eval call env n'))
    (after : List Node) (loc : Option Location) :
    Meets m (Eval.eval call env (.call f (before ++ n :: after) loc))
      (Eval.eval call env (.call f (before ++ n' :: after) loc)) := by
  rw [Eval.eval_call, Eval.eval_call, Eval.evalAll_append, Eval.evalAll_append]
  refine .visit _ _ (.after (Veil.alike_eval hcall env f) fun v m₁ hv => ?_)
  simp only [bind_assoc]
  refine .after (Veil.alike_evalAll hcall env before) fun vs m₂ hvs => ?_
  refine (harg v m₁ hv vs m₂ hvs).bind fun w => ?_
  refine (Veil.alike_evalAll hcall env after).bind fun ws => ?_
  exact (Veil.Alike.pure _).bind fun _ => Eval.alike_apply hcall v _

/-- A value of an object literal is found alike, from where the entries before it leave off. -/
theorem entry {n n' : Node} {before : List (Value × Node)} (hvalue : ∀ record m₁,
      on (Run.alloc (.record .plain .empty none false)) m = (.ok record, m₁) → ∀ m₂,
      on (Eval.evalEntries call env record before) m₁ = (.ok (), m₂) →
      Meets m₂ (Eval.eval call env n) (Eval.eval call env n'))
    (name : Value) (after : List (Value × Node)) (loc : Option Location) :
    Meets m (Eval.eval call env (.objectLiteral (before ++ (name, n) :: after) loc))
      (Eval.eval call env (.objectLiteral (before ++ (name, n') :: after) loc)) := by
  rw [Eval.eval, Eval.eval]
  refine .visit _ _ (.after (.quiet (.alloc _)) fun record m₁ hrecord => ?_)
  refine Meets.bind ?_ fun _ => .pure record
  rw [Eval.evalEntries_append, Eval.evalEntries_append]
  refine .after (Veil.alike_evalEntries hcall env record before) fun _ m₂ hbefore => ?_
  rw [Eval.evalEntries, Eval.evalEntries]
  refine (hvalue record m₁ hrecord m₂ hbefore).bind fun v => ?_
  refine .after (Ordinary.quiet_propertyKey name) fun key => .after (.keyOf _) fun k => ?_
  split
  · exact .after (Ordinary.quiet_writeOwn _ _ _ _) fun _ => Veil.alike_evalEntries hcall env _ after
  · exact Veil.alike_evalEntries hcall env _ after

/-- A statement is run alike, from where the statements before it leave off. -/
theorem statements {n n' : Node} {before : List Node} {strict : Bool} (hn : ∀ v m₁,
      on (Eval.evalBody call env .undefined before) (m.strictly (m.strict || strict)) = (.ok v, m₁) →
      Meets m₁ (Eval.eval call env n) (Eval.eval call env n'))
    (after : List Node) :
    Meets m (Run.withStrict strict (Eval.evalBody call env .undefined (before ++ n :: after)))
      (Run.withStrict strict (Eval.evalBody call env .undefined (before ++ n' :: after))) := by
  refine .withStrict strict ?_
  rw [Eval.evalBody_append, Eval.evalBody_append]
  refine .after (Veil.alike_evalBody hcall env .undefined before) fun v m₁ hv => ?_
  exact (hn v m₁ hv).bind fun w => Veil.alike_evalBody hcall env w after

end

/-- Deleting what is no place evaluates it. -/
theorem delete_value {t t' : Node} (hsuper : ∀ name loc, t ≠ .superMember name loc)
    (hsuper' : ∀ name loc, t' ≠ .superMember name loc) (ht : t.isReference = false)
    (ht' : t'.isReference = false) (hxy : Meets m (Eval.eval call env t) (Eval.eval call env t'))
    (loc : Option Location) :
    Meets m (Eval.eval call env (.delete t loc)) (Eval.eval call env (.delete t' loc)) := by
  rw [Eval.eval_delete_value hsuper _ ht, Eval.eval_delete_value hsuper' _ ht']
  exact .visit _ _ (hxy.bind fun _ => .pure _)

/-- Neither of two nodes of one kind is a target of an assignment if they are no places. -/
theorem assign_value {t t' : Node} (ht : t.isReference = false) (ht' : t'.isReference = false)
    (hkind : ∀ h, t.typeName h = t'.typeName h) (v : Node) (loc : Option Location) :
    Meets m (Eval.eval call env (.assign t v loc)) (Eval.eval call env (.assign t' v loc)) := by
  have hsame : Fault.Same (.badAssignTarget t) (.badAssignTarget t') :=
    ⟨rfl, fun h => by rw [Fault.message, Fault.message, hkind h], rfl, rfl⟩
  rw [Eval.eval, Eval.eval, ht, ht']
  exact .visit _ _ (.fail hsame)

end Run.Meets

/-! ## Exchanging nodes -/

/-- On the machine, two nodes do the same wherever they may stand: where the place is read, where it
is deleted and, if that is asked, where it waits to be assigned to. -/
structure Exchange (call : Caller) (env : Value) (n n' : Node) (assigned : Bool) (m : Machine) :
    Prop where
  read : Meets m (Eval.eval call env n) (Eval.eval call env n')
  deleted : ∀ loc, Meets m (Eval.eval call env (.delete n loc)) (Eval.eval call env (.delete n' loc))
  target : assigned = true → Meets m (Eval.reference call env n) (Eval.reference call env n')

namespace Context

variable {call : Caller} {env : Value} {n n' : Node} (hcall : Veil.butLog.Callers call call)
  (hn : n.isReference = true) (hn' : n'.isReference = true)

/-- A filled context is a reference if it is one by itself or is nothing but the hole. -/
theorem isReference_fill (hn : n.isReference = true) (c : Context) :
    (c.fill n).isReference = (c.isHole || c.isPlace) := by
  cases c <;> first | exact hn | rfl

/-- Nothing but the hole is the hole. -/
theorem eq_hole {c : Context} (hc : c.isHole = true) : c = hole := by
  cases c with
  | hole => rfl
  | _ => cases hc

/-- A context around the hole is no member of the parent. -/
theorem fill_ne_superMember {c : Context} (hc : c.isHole = false) (name : Value)
    (loc : Option Location) : c.fill n ≠ .superMember name loc := by
  cases c with
  | hole => cases hc
  | _ => nofun

/-- A program that is not the open node itself is a node of one kind, whatever stands in the hole.
-/
theorem typeName_fill {c : Context} (hc : c.isHole = false) (h : Heap) :
    (c.fill n).typeName h = (c.fill n').typeName h := by
  cases c with
  | hole => cases hc
  | _ => rfl

/-- A place around the hole is read as the reference that it denotes. -/
theorem eval_of_isPlace {c : Context} (hc : c.isPlace = true) :
    Eval.eval call env (c.fill n) = (do
      Run.visit (c.fill n)
      let ref ← Eval.reference call env (c.fill n)
      Eval.readAt call (c.fill n) ref) := by
  cases c with
  | member | indexBase | indexKey | chainBase | chainResolver =>
    rw [fill, Eval.eval, Eval.reference]
  | _ => cases hc

/-- In the hole of the program, either node does the same: where the program is evaluated and, if it
denotes a place, where that is to be used. -/
structure Fills (call : Caller) (env : Value) (n n' : Node) (c : Context) (m : Machine) : Prop where
  eval : Meets m (Eval.eval call env (c.fill n)) (Eval.eval call env (c.fill n'))
  reference : c.isPlace = true →
    Meets m (Eval.reference call env (c.fill n)) (Eval.reference call env (c.fill n'))

namespace Fills

variable {c : Context} {m : Machine}

/-- Of a place it is enough to know what it denotes. -/
theorem of_place (hcall : Veil.butLog.Callers call call) (hc : c.isPlace = true)
    (hplace : Meets m (Eval.reference call env (c.fill n)) (Eval.reference call env (c.fill n'))) :
    Fills call env n n' c m := by
  refine ⟨?_, fun _ => hplace⟩
  rw [eval_of_isPlace hc, eval_of_isPlace hc]
  exact hplace.readAt hcall _ _

/-- Of what is no place it is enough to know its value. -/
theorem of_value (hc : c.isPlace = false)
    (hvalue : Meets m (Eval.eval call env (c.fill n)) (Eval.eval call env (c.fill n'))) :
    Fills call env n n' c m := by
  refine ⟨hvalue, fun hplace => ?_⟩
  rw [hc] at hplace
  cases hplace

end Fills

include hcall hn hn'

/-- An assignment goes on with either node in its target. The hole is the target, or a place is that
has the hole inside, or what is assigned to is no place. -/
theorem meets_target {t : Context} {v : Node} {loc : Option Location} {m : Machine}
    (hc : (target t v loc).AtHole call env (Exchange call env n n' (target t v loc).assigns) m)
    (hfills : t.AtHole call env (Exchange call env n n' t.assigns) m → Fills call env n n' t m) :
    Meets m (Eval.eval call env (.assign (t.fill n) v loc))
      (Eval.eval call env (.assign (t.fill n') v loc)) := by
  cases hhole : t.isHole with
  | true =>
    obtain rfl := eq_hole hhole
    exact ((hc () m rfl).target rfl).assign hcall hn hn' v loc
  | false =>
    have ht := isReference_fill hn t
    have ht' := isReference_fill hn' t
    rw [AtHole, lead, assigns, hhole] at hc
    rw [hhole] at ht ht'
    cases hplace : t.isPlace with
    | true =>
      rw [hplace] at ht ht' hc
      exact ((hfills hc).reference hplace).assign hcall ht ht' v loc
    | false =>
      rw [hplace] at ht ht'
      exact .assign_value ht ht' (typeName_fill hhole) v loc

/-- So does a `delete` with either node in its operand. -/
theorem meets_deleted {t : Context} {loc : Option Location} {m : Machine}
    (hc : t.AtHole call env (Exchange call env n n' t.assigns) m) (hfills : Fills call env n n' t m) :
    Meets m (Eval.eval call env (.delete (t.fill n) loc))
      (Eval.eval call env (.delete (t.fill n') loc)) := by
  cases hhole : t.isHole with
  | true =>
    obtain rfl := eq_hole hhole
    exact (hc () m rfl).deleted loc
  | false =>
    have ht := isReference_fill hn t
    have ht' := isReference_fill hn' t
    have hsuper := fun {n} => fill_ne_superMember (n := n) hhole
    rw [hhole] at ht ht'
    cases hplace : t.isPlace with
    | true =>
      rw [hplace] at ht ht'
      exact (hfills.reference hplace).delete hcall hsuper hsuper ht ht' loc
    | false =>
      rw [hplace] at ht ht'
      exact .delete_value hsuper hsuper ht ht' hfills.eval loc

/-- Nodes that may be exchanged where evaluation comes to the hole may be exchanged in the program.
The induction is on the program around the hole. A place around it denotes the same with either
node. -/
theorem meets_fill (c : Context) : ∀ {m : Machine},
    c.AtHole call env (Exchange call env n n' c.assigns) m → Fills call env n n' c m := by
  induction c with
  | hole =>
    intro m hc
    exact .of_value rfl (hc () m rfl).read
  -- Where something is evaluated before the hole, the hypothesis is taken along past it.
  | member obj name loc ih =>
    intro m hc
    refine .of_place hcall rfl ?_
    rw [fill, fill, Eval.reference, Eval.reference]
    exact (ih hc).eval.memberReference name
  | indexBase obj key loc ih =>
    intro m hc
    refine .of_place hcall rfl ?_
    rw [fill, fill, Eval.reference, Eval.reference]
    exact (ih hc).eval.indexReference (Veil.alike_eval hcall env key)
  | indexKey obj key loc ih =>
    intro m hc
    refine .of_place hcall rfl ?_
    rw [fill, fill, Eval.reference, Eval.reference]
    refine .indexReference_key (Veil.alike_eval hcall env obj) fun v m₁ hv base m₂ hbase => ?_
    exact (ih ((hc.after hv).after hbase)).eval
  | chainBase obj resolver loc ih =>
    intro m hc
    refine .of_place hcall rfl ?_
    rw [fill, fill, Eval.reference, Eval.reference]
    exact (ih hc).eval.chainReference (Veil.alike_eval hcall env resolver)
  | chainResolver obj resolver loc ih =>
    intro m hc
    refine .of_place hcall rfl ?_
    rw [fill, fill, Eval.reference, Eval.reference]
    refine .chainReference_resolver (Veil.alike_eval hcall env obj) fun v m₁ hv => ?_
    exact (ih (hc.after hv)).eval
  | target t v loc ih =>
    intro m hc
    exact .of_value rfl (meets_target hcall hn hn' hc ih)
  | assigned t v loc ih =>
    intro m hc
    refine .of_value rfl (.assigned hcall (fun ht ref m₁ href => ?_) loc)
    rw [AtHole, lead, if_pos ht] at hc
    exact (ih (hc.after href)).eval
  | deleted t loc ih =>
    intro m hc
    exact .of_value rfl (meets_deleted hcall hn hn' hc (ih hc))
  | callee f args loc ih =>
    intro m hc
    exact .of_value rfl ((ih hc).eval.callee hcall args loc)
  | argument f before arg after loc ih =>
    intro m hc
    refine .of_value rfl (.argument hcall (fun v m₁ hv vs m₂ hvs => ?_) after loc)
    exact (ih ((hc.after hv).after hvs)).eval
  | entry before name v after loc ih =>
    intro m hc
    refine .of_value rfl (.entry hcall (fun record m₁ hrecord m₂ hbefore => ?_) name after loc)
    exact (ih ((hc.after hrecord).after hbefore)).eval
  | statement before s after strict loc ih =>
    intro m hc
    refine .of_value rfl ?_
    rw [fill, fill, Eval.eval, Eval.eval]
    refine .visit _ _ (.statements hcall (fun v m₁ hv => ?_) after)
    exact (ih ((hc.after (Run.on_modify _ m)).after hv)).eval

/-- So they may be where the program is run. -/
theorem meets_run (c : Context) {m : Machine}
    (hc : c.AtHole call env (Exchange call env n n' c.assigns) m) :
    Meets m (Eval.run call env (c.fill n)) (Eval.run call env (c.fill n')) := by
  cases c with
  | statement before s after strict loc =>
    refine .statements hcall (fun v m₁ hv => ?_) after
    exact (meets_fill hcall hn hn' s ((hc.after (Run.on_modify _ m)).after hv)).eval
  | hole =>
    rw [fill, fill, Eval.run_of_isReference hn, Eval.run_of_isReference hn']
    exact (meets_fill hcall hn hn' hole hc).eval
  | _ => exact (meets_fill hcall hn hn' _ hc).eval

end Context

end ChainScript
