import ChainScript.Eval
import ChainScript.Proofs.LockstepAccess

/-!
# Evaluation in lockstep

The value of a node, the reference that it denotes, and the program that a tree denotes are found in
the same way in both runs, provided that both make calls to the same end. The references remember
how strict each run is, and are the same otherwise. The proofs follow the recursion of the evaluator
on the node.
-/

namespace ChainScript

namespace Pairing

variable {P : Pairing} {h : Heap}

/-- Visiting a node is steady. -/
theorem steady_visit (n : Node) : P.Steady h (Run.visit n) :=
  fun m _ _ _ hi hst =>
    .value (m := { m with current := some n }) rfl (P.invariant.visit hi _) hst.leaves

/-! ## Programs from trees -/

/-- A node as a value is a new object, unless it is a value already. -/
theorem steady_ofNode (n : Node) : P.Steady h (Run.ofNode n) := by
  cases n with
  | value v => exact .pure rfl
  | _ => exact steady_alloc rfl

mutual

/-- The lists in a node are made on the heap in the same order in both runs. -/
theorem steady_settle : ∀ (n : Node) (h : Heap), P.Steady h n.settle
  | .member obj name loc, h => by
    rw [Node.settle]
    exact (steady_settle obj h).andThen fun _ _ => .pure rfl
  | .index obj key loc, h => by
    rw [Node.settle]
    exact (steady_settle obj h).andThen fun _ _ =>
      (steady_settle key _).andThen fun _ _ => .pure rfl
  | .chain obj resolver loc, h => by
    rw [Node.settle]
    exact (steady_settle obj h).andThen fun _ _ =>
      (steady_settle resolver _).andThen fun _ _ => .pure rfl
  | .assign target v loc, h => by
    rw [Node.settle]
    exact (steady_settle target h).andThen fun _ _ =>
      (steady_settle v _).andThen fun _ _ => .pure rfl
  | .delete target loc, h => by
    rw [Node.settle]
    exact (steady_settle target h).andThen fun _ _ => .pure rfl
  | .call callee args loc, h => by
    rw [Node.settle]
    refine (steady_settle callee h).andThen fun _ h₁ => ?_
    exact (steady_settleAll args h₁).andThen fun _ _ => .pure rfl
  | .objectLiteral entries loc, h => by
    rw [Node.settle]
    exact (steady_settleEntries entries h).andThen fun _ _ => .pure rfl
  | .program body strict loc, h => by
    rw [Node.settle]
    exact (steady_settleAll body h).andThen fun _ _ => .pure rfl
  | .list items, h => by
    rw [Node.settle]
    have hvalues : ∀ (settled : List Node) (h' : Heap), P.Steady h' (settled.mapM Run.ofNode) :=
      fun settled _ => steady_mapM (fun n _ => steady_ofNode n) settled
    refine (steady_settleAll items h).andThen fun settled h₁ => ?_
    refine (hvalues settled h₁).andThen fun values h₂ => ?_
    exact (steady_alloc rfl).andThen fun _ _ => .pure rfl
  | .literal .., _ | .identifier .., _ | .superMember .., _ | .other .., _ | .value .., _ => .pure rfl

/-- Nodes in a row are settled steadily. -/
theorem steady_settleAll : ∀ (ns : List Node) (h : Heap), P.Steady h (Node.settleAll ns)
  | [], _ => .pure rfl
  | n :: ns, h => by
    rw [Node.settleAll]
    exact (steady_settle n h).andThen fun _ _ => (steady_settleAll ns _).andThen fun _ _ => .pure rfl

/-- The entries of an object literal are settled steadily. -/
theorem steady_settleEntries :
    ∀ (entries : List (Value × Node)) (h : Heap), P.Steady h (Node.settleEntries entries)
  | [], _ => .pure rfl
  | (name, n) :: rest, h => by
    rw [Node.settleEntries]
    exact (steady_settle n h).andThen fun _ _ =>
      (steady_settleEntries rest _).andThen fun _ _ => .pure rfl

end

/-- A tree is read in the same way in both runs, or refused in both. -/
theorem steady_transform (tree : Value) : P.Steady h (Run.transform tree) := by
  refine .heap ?_
  split
  · exact steady_settle _ h
  · exact .failSame _

/-- The program that is given, as a node or as a tree, is the same in both runs. -/
theorem steady_programOf (tree : Value) : P.Steady h (Run.programOf tree) := by
  refine .objectOf? ?_
  split
  · exact .pure rfl
  · exact (steady_transform tree).andThen fun _ _ => .pure rfl

/-! ## References -/

/-- The same reference, each as strict as its run may be. -/
def Denoted (P : Pairing) (r r' : Reference) (_ : Heap) : Prop :=
  ∃ (ref : Reference) (s t : Bool), P.Strictness s t ∧ r = ref.strictly s ∧ r' = ref.strictly t

/-- References that are as strict as their runs are denoted in lockstep. -/
theorem Twins.denoted {s t : Bool} (hst : P.Strictness s t) {r r' : Reference} {h' : Heap}
    (hr : Twins s t r r' h') : P.Denoted r r' h' := by
  obtain ⟨ref, hr, hr'⟩ := hr
  exact ⟨ref, s, t, hst, hr, hr'⟩

/-- The reference that an identifier denotes. -/
theorem lockstep_bindingReference (env name : Value) :
    P.Lockstep h P.Denoted (Eval.bindingReference env name) (Eval.bindingReference env name) :=
  .get fun _ s t _ _ hst =>
    (lockstep_binding env name s t).mono fun _ _ _ hr => hr.denoted hst

/-- A reference to a property that is made as strict as the run is. -/
theorem lockstep_propertyReference (base name this : Value) (isSuper : Bool) :
    P.Lockstep h P.Denoted
      (do Reference.property base name (← get).strict this isSuper)
      (do Reference.property base name (← get).strict this isSuper) :=
  .get fun _ s t _ _ hst =>
    (lockstep_property base name this isSuper s t).mono fun _ _ _ hr => hr.denoted hst

/-- The reference that a member denotes. -/
theorem lockstep_memberReference {obj obj' : Run Value} (hobj : P.Paired h obj obj') (name : Value) :
    P.Lockstep h P.Denoted (Eval.memberReference obj name)
      (Eval.memberReference obj' name) :=
  hobj.andThen fun v _ => (steady_toObject v).andThen fun _ _ =>
    lockstep_propertyReference _ _ _ _

/-- The reference that an index denotes: the key is evaluated after the object was accepted. -/
theorem lockstep_indexReference {obj obj' key key' : Run Value} (hobj : P.Paired h obj obj')
    (hkey : ∀ h', P.Paired h' key key') :
    P.Lockstep h P.Denoted (Eval.indexReference obj key) (Eval.indexReference obj' key') := by
  refine hobj.andThen fun v _ => ?_
  refine (steady_toObject v).andThen fun base h₁ => ?_
  refine (hkey h₁).andThen fun k _ => ?_
  exact (steady_propertyKey k).andThen fun name _ => lockstep_propertyReference base name .undefined false

/-- The reference that a chain denotes: both operands are evaluated before either is looked at. -/
theorem lockstep_chainReference {obj obj' resolver resolver' : Run Value}
    (hobj : P.Paired h obj obj') (hresolver : ∀ h', P.Paired h' resolver resolver') :
    P.Lockstep h P.Denoted (Eval.chainReference obj resolver)
      (Eval.chainReference obj' resolver') := by
  refine hobj.andThen fun base h₁ => ?_
  refine (hresolver h₁).andThen fun resolver _ => ?_
  refine .get fun _ s t _ _ hst => ?_
  exact (lockstep_chain base resolver s t).mono fun _ _ _ hr => hr.denoted hst

variable {call call' : Caller}

/-- The reference that a super member denotes, which reads `this` on its way. -/
theorem lockstep_superReference (hcall : P.Callers call call') (env name : Value)
    (loc : Option Location) :
    P.Lockstep h P.Denoted (Eval.superReference call env name loc)
      (Eval.superReference call' env name loc) := by
  refine .get fun _ s t _ _ hst => (lockstep_binding env (.str "this") s t).bind ?_
  rintro _ _ h₁ ⟨ref, rfl, rfl⟩
  refine (lockstep_read hcall ref hst).bind ?_
  rintro this _ h₂ rfl
  refine .heap ?_
  split
  · exact lockstep_propertyReference _ _ _ _
  · exact .failSame _

/-- A reference is read with its node as the current one. -/
theorem lockstep_readAt (hcall : P.Callers call call') (n : Node) {x y : Run Reference}
    (hxy : P.Lockstep h P.Denoted x y) :
    P.Paired h (x >>= Eval.readAt call n) (y >>= Eval.readAt call' n) := by
  refine hxy.bind ?_
  rintro _ _ h' ⟨ref, s, t, hst, rfl, rfl⟩
  exact (steady_visit n).andThen fun _ _ => lockstep_read hcall ref hst

/-! ## Nodes -/

mutual

/-- The value of a node is found in the same way in both runs. -/
theorem paired_eval (hcall : P.Callers call call') (env : Value) :
    ∀ (n : Node) (h : Heap), P.Paired h (Eval.eval call env n) (Eval.eval call' env n)
  | .value v, h => by
    rw [Eval.eval]
    exact .pure rfl
  | .list items, h => by
    rw [Eval.eval]
    have hvalues : ∀ (settled : List Node) (h' : Heap), P.Steady h' (settled.mapM Run.ofNode) :=
      fun settled _ => steady_mapM (fun n _ => steady_ofNode n) settled
    refine (steady_settleAll items h).andThen fun settled h₁ => ?_
    exact (hvalues settled h₁).andThen fun _ _ => steady_alloc rfl
  | .literal v loc, h => by
    rw [Eval.eval]
    exact (steady_visit _).andThen fun _ _ => .pure rfl
  | .identifier name loc, h => by
    rw [Eval.eval]
    refine (steady_visit _).andThen fun _ h₁ => ?_
    exact lockstep_readAt hcall _ (lockstep_bindingReference env name)
  | .member obj name loc, h => by
    rw [Eval.eval]
    refine (steady_visit _).andThen fun _ h₁ => ?_
    have hobj := paired_eval hcall env obj h₁
    exact lockstep_readAt hcall _ (lockstep_memberReference hobj name)
  | .index obj key loc, h => by
    rw [Eval.eval]
    refine (steady_visit _).andThen fun _ h₁ => ?_
    have hobj := paired_eval hcall env obj h₁
    have hkey := paired_eval hcall env key
    exact lockstep_readAt hcall _ (lockstep_indexReference hobj hkey)
  | .chain obj resolver loc, h => by
    rw [Eval.eval]
    refine (steady_visit _).andThen fun _ h₁ => ?_
    have hobj := paired_eval hcall env obj h₁
    have hresolver := paired_eval hcall env resolver
    exact lockstep_readAt hcall _ (lockstep_chainReference hobj hresolver)
  | .superMember name loc, h => by
    rw [Eval.eval]
    refine (steady_visit _).andThen fun _ h₁ => ?_
    exact lockstep_readAt hcall _ (lockstep_superReference hcall env name loc)
  | .assign target v loc, h => by
    rw [Eval.eval]
    refine (steady_visit _).andThen fun _ h₁ => ?_
    split
    · -- The reference is made before the value, and keeps the strictness of that moment.
      refine (lockstep_reference hcall env target h₁).bind ?_
      rintro _ _ h₂ ⟨ref, s, t, hst, rfl, rfl⟩
      refine (paired_eval hcall env v h₂).andThen fun new h₃ => ?_
      refine (steady_visit _).andThen fun _ h₄ => ?_
      exact (lockstep_write hcall ref new hst).bind fun _ _ _ _ => .pure rfl
    · exact .failSame _
  | .delete target loc, h => by
    unfold Eval.eval
    refine (steady_visit _).andThen fun _ h₁ => ?_
    split
    · exact .failSame _
    · split
      · refine (lockstep_reference hcall env target h₁).bind ?_
        rintro _ _ h₂ ⟨ref, s, t, hst, rfl, rfl⟩
        refine (steady_visit _).andThen fun _ h₃ => ?_
        exact (lockstep_delete hcall ref hst).bind fun a b _ hab => .pure (congrArg Value.bool hab)
      · exact (paired_eval hcall env target h₁).andThen fun _ _ => .pure rfl
  | .call callee args loc, h => by
    rw [Eval.eval]
    refine (steady_visit _).andThen fun _ h₁ => ?_
    refine (paired_eval hcall env callee h₁).andThen fun f h₂ => ?_
    refine (paired_evalAll hcall env args h₂).andThen fun arguments h₃ => .heap ?_
    split
    · exact .note (.bind (.text _) fun _ => .pure _) (hcall f arguments h₃)
    · exact .failSame _
  | .objectLiteral entries loc, h => by
    rw [Eval.eval]
    refine (steady_visit _).andThen fun _ h₁ => ?_
    refine (steady_alloc rfl).andThen fun record h₂ => ?_
    exact (paired_evalEntries hcall env record entries h₂).andThen fun _ _ => .pure rfl
  | .program body strict loc, h => by
    rw [Eval.eval]
    refine (steady_visit _).andThen fun _ h₁ => ?_
    have hbody := paired_evalBody hcall env .undefined body h₁
    exact .withStrict strict hbody
  | .other kind loc, h => by
    rw [Eval.eval]
    exact (steady_visit _).andThen fun _ _ => .failSame _

/-- The reference that a node denotes is the same in both runs but for strictness. -/
theorem lockstep_reference (hcall : P.Callers call call') (env : Value) :
    ∀ (n : Node) (h : Heap),
      P.Lockstep h P.Denoted (Eval.reference call env n) (Eval.reference call' env n)
  | .identifier name _, h => by
    rw [Eval.reference]
    exact lockstep_bindingReference env name
  | .member obj name _, h => by
    rw [Eval.reference]
    have hobj := paired_eval hcall env obj h
    exact lockstep_memberReference hobj name
  | .index obj key _, h => by
    rw [Eval.reference]
    have hobj := paired_eval hcall env obj h
    have hkey := paired_eval hcall env key
    exact lockstep_indexReference hobj hkey
  | .chain obj resolver _, h => by
    rw [Eval.reference]
    have hobj := paired_eval hcall env obj h
    have hresolver := paired_eval hcall env resolver
    exact lockstep_chainReference hobj hresolver
  | .superMember name loc, h => by
    rw [Eval.reference]
    exact lockstep_superReference hcall env name loc
  | .literal .., _ | .assign .., _ | .delete .., _ | .call .., _ | .objectLiteral .., _
  | .program .., _ | .other .., _ | .value .., _ | .list .., _ => .failSame _

/-- Nodes in a row are evaluated in lockstep. -/
theorem paired_evalAll (hcall : P.Callers call call') (env : Value) :
    ∀ (ns : List Node) (h : Heap), P.Paired h (Eval.evalAll call env ns) (Eval.evalAll call' env ns)
  | [], h => by
    rw [Eval.evalAll]
    exact .pure rfl
  | n :: ns, h => by
    rw [Eval.evalAll]
    refine (paired_eval hcall env n h).andThen fun v h₁ => ?_
    exact (paired_evalAll hcall env ns h₁).andThen fun _ _ => .pure rfl

/-- The entries of an object literal are evaluated in lockstep. -/
theorem paired_evalEntries (hcall : P.Callers call call') (env record : Value) :
    ∀ (entries : List (Value × Node)) (h : Heap),
      P.Paired h (Eval.evalEntries call env record entries) (Eval.evalEntries call' env record entries)
  | [], h => by
    rw [Eval.evalEntries]
    exact .pure rfl
  | (name, n) :: rest, h => by
    rw [Eval.evalEntries]
    refine (paired_eval hcall env n h).andThen fun v h₁ => ?_
    refine (steady_propertyKey name).andThen fun key h₂ => .keyOf fun k _ => ?_
    split
    · exact (lockstep_writeOwn _ k key v).bind fun _ _ h₃ _ =>
        paired_evalEntries hcall env _ rest h₃
    · exact paired_evalEntries hcall env _ rest _

/-- Statements are evaluated in lockstep. -/
theorem paired_evalBody (hcall : P.Callers call call') (env last : Value) :
    ∀ (ns : List Node) (h : Heap),
      P.Paired h (Eval.evalBody call env last ns) (Eval.evalBody call' env last ns)
  | [], h => by
    rw [Eval.evalBody]
    exact .pure rfl
  | n :: ns, h => by
    rw [Eval.evalBody]
    exact (paired_eval hcall env n h).andThen fun v _ => paired_evalBody hcall env v ns _

end

/-- A program runs in the same way in both runs. -/
theorem paired_run (hcall : P.Callers call call') (env : Value) (n : Node) :
    P.Paired h (Eval.run call env n) (Eval.run call' env n) := by
  unfold Eval.run
  split
  · exact .withStrict _ (paired_evalBody hcall env .undefined _ h)
  · exact paired_eval hcall env n h

end Pairing

end ChainScript
