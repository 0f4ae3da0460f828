import ChainScript.Eval
import ChainScript.Proofs.MirrorAccess

/-!
# Evaluation on copies

The value of a node, the reference that it denotes and the program that a tree stands for are found
on a copy as they are on the original, provided that calls are. The proofs follow the recursion of
the evaluator on the node.
-/

namespace ChainScript

variable {ρ : Renaming}

/-- Visiting the copy of a node makes the copy the current one. -/
theorem mirror_visit (n : Node) : Mirror ρ id (Run.visit n) (Run.visit (rename ρ n)) :=
  .modify (fun _ => rfl) fun _ _ => rfl

/-! ## Programs from trees -/

/-- The value of the copy of a node is the copy of its value. -/
theorem follows_ofNode (n : Node) : Follows ρ (Run.ofNode n) (Run.ofNode (rename ρ n)) := by
  cases n with
  | value v => exact .pure v rfl
  | _ => exact .alloc (.node _)

mutual

/-- The lists in a node are made on the heap in the same order. -/
theorem follows_settle : ∀ n : Node, Follows ρ n.settle (rename ρ n).settle
  | .member obj name loc => by
    simp only [Node.rename_member, Node.settle]
    exact (follows_settle obj).bind fun _ => .pure _ rfl
  | .index obj key loc => by
    simp only [Node.rename_index, Node.settle]
    exact (follows_settle obj).bind fun _ => (follows_settle key).bind fun _ => .pure _ rfl
  | .chain obj resolver loc => by
    simp only [Node.rename_chain, Node.settle]
    exact (follows_settle obj).bind fun _ => (follows_settle resolver).bind fun _ => .pure _ rfl
  | .assign target v loc => by
    simp only [Node.rename_assign, Node.settle]
    exact (follows_settle target).bind fun _ => (follows_settle v).bind fun _ => .pure _ rfl
  | .delete target loc => by
    simp only [Node.rename_delete, Node.settle]
    exact (follows_settle target).bind fun _ => .pure _ rfl
  | .call callee args loc => by
    simp only [Node.rename_call, Node.settle]
    refine (follows_settle callee).bind fun callee => ?_
    exact (follows_settleAll args).bind fun args => .pure _ (Node.rename_call ..).symm
  | .objectLiteral entries loc => by
    simp only [Node.rename_objectLiteral, Node.settle]
    exact (follows_settleEntries entries).bind fun entries =>
      .pure _ (Node.rename_objectLiteral ..).symm
  | .program body strict loc => by
    simp only [Node.rename_program, Node.settle]
    exact (follows_settleAll body).bind fun body => .pure _ (Node.rename_program ..).symm
  | .list items => by
    simp only [Node.rename_listNode, Node.settle]
    refine (follows_settleAll items).bind fun settled => ?_
    refine (Mirror.mapM follows_ofNode settled).bind fun values => ?_
    exact (Mirror.alloc (.list values)).bind fun v => .pure _ rfl
  | .literal .. | .identifier .. | .superMember .. | .other .. | .value .. => .pure _ rfl

/-- Settling the copies of nodes settles what the nodes do. -/
theorem follows_settleAll : ∀ ns : List Node,
    Follows ρ (Node.settleAll ns) (Node.settleAll (ns.map (rename ρ)))
  | [] => .pure [] rfl
  | n :: ns => by
    simp only [List.map_cons, Node.settleAll]
    exact (follows_settle n).bind fun _ => (follows_settleAll ns).bind fun _ => .pure _ rfl

/-- So does settling the copies of entries. -/
theorem follows_settleEntries : ∀ entries : List (Value × Node),
    Follows ρ (Node.settleEntries entries) (Node.settleEntries (entries.map (rename ρ)))
  | [] => .pure [] rfl
  | (name, n) :: rest => by
    simp only [List.map_cons, rename_prod, Node.settleEntries]
    exact (follows_settle n).bind fun _ => (follows_settleEntries rest).bind fun _ => .pure _ rfl

end

/-- A copied tree denotes the copy of the node that the tree denotes. -/
theorem follows_transform (tree : Value) :
    Follows ρ (Run.transform tree) (Run.transform (rename ρ tree)) := by
  refine .heap fun h h' hh => ?_
  rw [hh.readTree]
  have hreads := Tree.reads_toNode (ρ := ρ) (h.readTree tree)
  revert hreads
  generalize (h.readTree tree).toNode = read, (rename ρ (h.readTree tree)).toNode = read'
  rintro (⟨hn⟩ | ⟨he⟩)
  · subst hn
    exact follows_settle _
  · subst he
    exact .fail rfl

/-- It denotes the copy of the program that the tree denotes. -/
theorem follows_programOf (tree : Value) :
    Follows ρ (Run.programOf tree) (Run.programOf (rename ρ tree)) := by
  have htree : Follows ρ (do return (← Run.transform tree).toProgram)
      (do return (← Run.transform (rename ρ tree)).toProgram) :=
    (follows_transform tree).bind fun n => .pure _ (Node.toProgram_rename ρ n)
  refine .objectOf? fun o o' hc => ?_
  rcases hc with ⟨hc⟩ | _
  · cases hc with
    | node n => exact .pure _ (Node.toProgram_rename ρ n)
    | _ => exact htree
  · exact htree

/-! ## References -/

/-- An identifier in the copy makes the copy of the reference. -/
theorem follows_bindingReference (env name : Value) :
    Follows ρ (Eval.bindingReference env name)
      (Eval.bindingReference (rename ρ env) (rename ρ name)) :=
  .get fun m _ _ => follows_binding env name m.strict

/-- A reference to a property that is made as strict as the run is. -/
theorem follows_propertyReference (base name this : Value) (isSuper : Bool) :
    Follows ρ (do Reference.property base name (← get).strict this isSuper)
      (do Reference.property (rename ρ base) (rename ρ name) (← get).strict (rename ρ this) isSuper) :=
  .get fun m _ _ => follows_property base name m.strict this isSuper

section

variable {obj obj' key key' resolver resolver' : Run Value}

/-- So does a member, if its object does. -/
theorem follows_memberReference (hobj : Follows ρ obj obj') (name : Value) :
    Follows ρ (Eval.memberReference obj name) (Eval.memberReference obj' (rename ρ name)) :=
  hobj.bind fun v => (follows_toObject v).bind fun base =>
    follows_propertyReference base name .undefined false

/-- So does an index, if its operands do. -/
theorem follows_indexReference (hobj : Follows ρ obj obj') (hkey : Follows ρ key key') :
    Follows ρ (Eval.indexReference obj key) (Eval.indexReference obj' key') :=
  hobj.bind fun v => (follows_toObject v).bind fun base =>
    hkey.bind fun k => (follows_propertyKey k).bind fun name =>
      follows_propertyReference base name .undefined false

/-- So does a chain, if its operands do. -/
theorem follows_chainReference (hobj : Follows ρ obj obj') (hresolver : Follows ρ resolver resolver') :
    Follows ρ (Eval.chainReference obj resolver) (Eval.chainReference obj' resolver') :=
  hobj.bind fun base => hresolver.bind fun resolver =>
    .get fun m _ _ => follows_chain base resolver m.strict

end

variable {call : Caller}

/-- So does a member of the parent. -/
theorem follows_superReference (hcall : CallerFollows ρ call) (env name : Value)
    (loc : Option Location) :
    Follows ρ (Eval.superReference call env name loc)
      (Eval.superReference call (rename ρ env) (rename ρ name) (rename ρ loc)) := by
  refine .get fun m _ _ => ?_
  refine (follows_binding env (.str "this") m.strict).bind fun ref => ?_
  refine (follows_read hcall ref).bind fun this => .heap fun h h' hh => ?_
  have hc := hh.objectOf? this
  revert hc
  generalize h.objectOf? this = o, h'.objectOf? (rename ρ this) = o'
  rintro (⟨hc⟩ | _)
  · cases hc with
    | record kind slots parent frozen =>
      cases parent with
      | none => exact .fail rfl
      | some home => exact follows_propertyReference (.object home) name this true
    | _ => exact .fail rfl
  · exact .fail rfl

/-- Reading through a reference at the copy of a node gives the copy of what is read. -/
theorem follows_readAt (hcall : CallerFollows ρ call) (n : Node) (ref : Reference) :
    Follows ρ (Eval.readAt call n ref) (Eval.readAt call (rename ρ n) (rename ρ ref)) :=
  (mirror_visit n).bind fun _ => follows_read hcall ref

/-! ## Nodes -/

mutual

/-- Evaluating the copy of a node gives the copy of its value. The induction is on the node. -/
theorem follows_eval (hcall : CallerFollows ρ call) (env : Value) : ∀ n : Node,
    Follows ρ (Eval.eval call env n) (Eval.eval call (rename ρ env) (rename ρ n))
  | .value v => by
    simp only [Node.rename_value, Eval.eval]
    exact .pure v rfl
  | .list items => by
    simp only [Node.rename_listNode, Eval.eval]
    refine (follows_settleAll items).bind fun settled => ?_
    exact (Mirror.mapM follows_ofNode settled).bind fun values => .alloc (.list values)
  | .literal v loc => by
    simp only [Node.rename_literal, Eval.eval]
    exact (mirror_visit (.literal v loc)).bind fun _ => .pure v rfl
  | .identifier name loc => by
    simp only [Node.rename_identifier, Eval.eval]
    refine (mirror_visit (.identifier name loc)).bind fun _ => ?_
    refine (follows_bindingReference env name).bind fun ref => ?_
    exact follows_readAt hcall (.identifier name loc) ref
  | .member obj name loc => by
    simp only [Node.rename_member, Eval.eval]
    refine (mirror_visit (.member obj name loc)).bind fun _ => ?_
    refine (follows_memberReference (follows_eval hcall env obj) name).bind fun ref => ?_
    exact follows_readAt hcall (.member obj name loc) ref
  | .index obj key loc => by
    simp only [Node.rename_index, Eval.eval]
    refine (mirror_visit (.index obj key loc)).bind fun _ => ?_
    have hobj := follows_eval hcall env obj
    have hkey := follows_eval hcall env key
    refine (follows_indexReference hobj hkey).bind fun ref => ?_
    exact follows_readAt hcall (.index obj key loc) ref
  | .chain obj resolver loc => by
    simp only [Node.rename_chain, Eval.eval]
    refine (mirror_visit (.chain obj resolver loc)).bind fun _ => ?_
    have hobj := follows_eval hcall env obj
    have hresolver := follows_eval hcall env resolver
    refine (follows_chainReference hobj hresolver).bind fun ref => ?_
    exact follows_readAt hcall (.chain obj resolver loc) ref
  | .superMember name loc => by
    simp only [Node.rename_superMember, Eval.eval]
    refine (mirror_visit (.superMember name loc)).bind fun _ => ?_
    refine (follows_superReference hcall env name loc).bind fun ref => ?_
    exact follows_readAt hcall (.superMember name loc) ref
  | .assign target v loc => by
    simp only [Node.rename_assign, Eval.eval, Node.isReference_rename]
    refine (mirror_visit (.assign target v loc)).bind fun _ => ?_
    split
    · refine (follows_reference hcall env target).bind fun ref => ?_
      refine (follows_eval hcall env v).bind fun new => ?_
      refine (mirror_visit (.assign target v loc)).bind fun _ => ?_
      exact (mirror_write hcall ref new).bind fun _ => .pure new rfl
    · exact .fail rfl
  | .delete target loc => by
    -- Deleting through `super` is refused before the target is looked at, so it is split off below;
    -- what every other target does is stated first.
    have hother : Follows ρ
        (if target.isReference then do
          let ref ← Eval.reference call env target
          Run.visit (.delete target loc)
          return Value.bool (← Dispatch.delete call ref)
        else do
          let _ ← Eval.eval call env target
          return Value.bool true)
        (if (rename ρ target).isReference then do
          let ref ← Eval.reference call (rename ρ env) (rename ρ target)
          Run.visit (.delete (rename ρ target) (rename ρ loc))
          return Value.bool (← Dispatch.delete call ref)
        else do
          let _ ← Eval.eval call (rename ρ env) (rename ρ target)
          return Value.bool true) := by
      rw [Node.isReference_rename]
      split
      · refine (follows_reference hcall env target).bind fun ref => ?_
        refine (mirror_visit (.delete target loc)).bind fun _ => ?_
        exact (mirror_delete hcall ref).bind fun _ => .pure _ rfl
      · exact (follows_eval hcall env target).bind fun _ => .pure _ rfl
    rw [Node.rename_delete]
    unfold Eval.eval
    refine (mirror_visit (.delete target loc)).bind fun _ => ?_
    cases target with
    | superMember name superLoc => exact .fail rfl
    | _ => exact hother
  | .call callee args loc => by
    simp only [Node.rename_call, Eval.eval]
    have hvisit := mirror_visit (ρ := ρ) (.call callee args loc)
    rw [Node.rename_call] at hvisit
    refine hvisit.bind fun _ => ?_
    refine (follows_eval hcall env callee).bind fun f => ?_
    refine (follows_evalAll hcall env args).bind fun arguments => .heap fun h h' hh => ?_
    rw [hh.isCallable]
    split
    -- The note of a call quotes the callee by the name it shows, which the copy shows too.
    · refine (Mirror.note ?_).bind fun _ => hcall f arguments
      have hname : (h'.shownName? (rename ρ f)).getD (.str (h'.typeName (rename ρ f)))
          = rename ρ ((h.shownName? f).getD (.str (h.typeName f))) := by
        rw [hh.shownName?, hh.typeName]
        cases h.shownName? f <;> rfl
      rw [hname]
      refine (Mirror.text _).bind fun name => .pure _ ?_
      simp only [rename_list, List.length_map, id_eq]
    · exact .fail rfl
  | .objectLiteral entries loc => by
    simp only [Node.rename_objectLiteral, Eval.eval]
    have hvisit := mirror_visit (ρ := ρ) (.objectLiteral entries loc)
    rw [Node.rename_objectLiteral] at hvisit
    refine hvisit.bind fun _ => ?_
    refine (Mirror.alloc (.record .plain .empty none false)).bind fun record => ?_
    exact (mirror_evalEntries hcall env record entries).bind fun _ => .pure record rfl
  | .program body strict loc => by
    simp only [Node.rename_program, Eval.eval]
    have hvisit := mirror_visit (ρ := ρ) (.program body strict loc)
    rw [Node.rename_program] at hvisit
    exact hvisit.bind fun _ => .withStrict strict (follows_evalBody hcall env .undefined body)
  | .other kind loc => by
    simp only [Node.rename_other, Eval.eval]
    exact (mirror_visit (.other kind loc)).bind fun _ => .fail rfl

/-- The copy of a node makes the copy of the reference that the node makes. -/
theorem follows_reference (hcall : CallerFollows ρ call) (env : Value) : ∀ n : Node,
    Follows ρ (Eval.reference call env n) (Eval.reference call (rename ρ env) (rename ρ n))
  | .identifier name loc => by
    simp only [Node.rename_identifier, Eval.reference]
    exact follows_bindingReference env name
  | .member obj name loc => by
    simp only [Node.rename_member, Eval.reference]
    exact follows_memberReference (follows_eval hcall env obj) name
  | .index obj key loc => by
    simp only [Node.rename_index, Eval.reference]
    have hobj := follows_eval hcall env obj
    have hkey := follows_eval hcall env key
    exact follows_indexReference hobj hkey
  | .chain obj resolver loc => by
    simp only [Node.rename_chain, Eval.reference]
    have hobj := follows_eval hcall env obj
    have hresolver := follows_eval hcall env resolver
    exact follows_chainReference hobj hresolver
  | .superMember name loc => by
    simp only [Node.rename_superMember, Eval.reference]
    exact follows_superReference hcall env name loc
  | .literal .. | .assign .. | .delete .. | .call .. | .objectLiteral .. | .program .. | .other ..
  | .value .. | .list .. => .fail rfl

/-- The copies of nodes are evaluated to the copies of their values. -/
theorem follows_evalAll (hcall : CallerFollows ρ call) (env : Value) : ∀ ns : List Node,
    Follows ρ (Eval.evalAll call env ns) (Eval.evalAll call (rename ρ env) (ns.map (rename ρ)))
  | [] => by
    simp only [List.map_nil, Eval.evalAll]
    exact .pure [] rfl
  | n :: ns => by
    simp only [List.map_cons, Eval.evalAll]
    refine (follows_eval hcall env n).bind fun v => ?_
    exact (follows_evalAll hcall env ns).bind fun _ => .pure _ rfl

/-- The copies of entries fill the copy of a record as the entries fill the record. -/
theorem mirror_evalEntries (hcall : CallerFollows ρ call) (env record : Value) :
    ∀ entries : List (Value × Node),
      Mirror ρ id (Eval.evalEntries call env record entries)
        (Eval.evalEntries call (rename ρ env) (rename ρ record) (entries.map (rename ρ)))
  | [] => by
    simp only [List.map_nil, Eval.evalEntries]
    exact .pure () rfl
  | (name, n) :: rest => by
    simp only [List.map_cons, rename_prod, Eval.evalEntries]
    have hrest := mirror_evalEntries hcall env record rest
    refine (follows_eval hcall env n).bind fun v => ?_
    refine (follows_propertyKey name).bind fun key => ?_
    refine (Mirror.keyOf key).bind fun k => ?_
    cases record with
    | object id => exact (mirror_writeOwn id k key v).bind fun _ => hrest
    | _ => exact hrest

/-- The copies of statements come to the copy of the last value. -/
theorem follows_evalBody (hcall : CallerFollows ρ call) (env last : Value) : ∀ ns : List Node,
    Follows ρ (Eval.evalBody call env last ns)
      (Eval.evalBody call (rename ρ env) (rename ρ last) (ns.map (rename ρ)))
  | [] => by
    simp only [List.map_nil, Eval.evalBody]
    exact .pure last rfl
  | n :: ns => by
    simp only [List.map_cons, Eval.evalBody]
    exact (follows_eval hcall env n).bind fun v => follows_evalBody hcall env v ns

end

/-- Running the copy of a program gives the copy of its value. -/
theorem follows_evalRun (hcall : CallerFollows ρ call) (env : Value) (n : Node) :
    Follows ρ (Eval.run call env n) (Eval.run call (rename ρ env) (rename ρ n)) := by
  cases n with
  | program body strict loc =>
    simp only [Node.rename_program, Eval.run]
    exact .withStrict strict (follows_evalBody hcall env .undefined body)
  | _ => exact follows_eval hcall env _

end ChainScript
