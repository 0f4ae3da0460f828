import Mathlib.Data.List.Forall2
import ChainScript.Proofs.Reading

/-!
# Trees that are read alike

What a tree denotes hangs on its fields and on what its operands denote, so trees whose fields and
operands are related denote related nodes or are faulty for related reasons. A `Likeness` says what
related means: it holds of nodes that are made alike of related parts and of faults that are found
alike.

An operand plays one of several parts. It is an expression, a name, a property, or an argument of a
call or a group of them. There is one lemma for each form of node, which asks of the operands what
the form makes of them, and `Likeness.plays_dict` is for operands that are related in every part
that they can play.
-/

namespace ChainScript

/-- Two readings come to related results, or end with related faults. -/
inductive Alongside {α β : Type} (E : TreeFault → TreeFault → Prop) (R : α → β → Prop) :
    Except TreeFault α → Except TreeFault β → Prop
  | ok {a : α} {b : β} (hab : R a b) : Alongside E R (.ok a) (.ok b)
  | error {e e' : TreeFault} (he : E e e') : Alongside E R (.error e) (.error e')

namespace Alongside

variable {α β γ δ : Type} {E : TreeFault → TreeFault → Prop} {R : α → β → Prop} {S : γ → δ → Prop}
  {x : Except TreeFault α} {y : Except TreeFault β}

/-- What goes on alongside from related values comes out alongside. -/
theorem bind {f : α → Except TreeFault γ} {g : β → Except TreeFault δ} (hxy : Alongside E R x y)
    (hfg : ∀ a b, R a b → Alongside E S (f a) (g b)) : Alongside E S (x >>= f) (y >>= g) := by
  cases hxy with
  | ok hab => exact hfg _ _ hab
  | error he => exact .error he

/-- Steps through related lists come to related lists. -/
theorem mapM {f : α → Except TreeFault γ} {g : β → Except TreeFault δ} {as : List α} {bs : List β}
    (hab : List.Forall₂ R as bs) (hfg : ∀ a b, R a b → Alongside E S (f a) (g b)) :
    Alongside E (List.Forall₂ S) (as.mapM f) (bs.mapM g) := by
  induction hab with
  | nil =>
    rw [List.mapM_nil, List.mapM_nil]
    exact .ok .nil
  | cons hR _ ih =>
    rw [List.mapM_cons, List.mapM_cons]
    refine (hfg _ _ hR).bind fun c d hcd => ?_
    exact ih.bind fun cs ds hcds => .ok (.cons hcd hcds)

/-- Everything comes out alongside itself, where faults and values are related to themselves. -/
theorem refl {R : α → α → Prop} (hE : ∀ e, E e e) (hR : ∀ a, R a a) :
    ∀ x : Except TreeFault α, Alongside E R x x
  | .ok a => .ok (hR a)
  | .error e => .error (hE e)

/-- What comes out alongside does so with a looser relation of values. -/
theorem mono {R' : α → β → Prop} (hxy : Alongside E R x y) (hR : ∀ a b, R a b → R' a b) :
    Alongside E R' x y := by
  cases hxy with
  | ok hab => exact .ok (hR _ _ hab)
  | error he => exact .error he

end Alongside

/-- What is related to the trees of a list may depend on their being in it. -/
theorem forall₂_imp_of_mem {α β : Type} {R S : α → β → Prop} {as : List α} {bs : List β}
    (h : List.Forall₂ R as bs) (hRS : ∀ a ∈ as, ∀ b ∈ bs, R a b → S a b) :
    List.Forall₂ S as bs := by
  induction h with
  | nil => exact .nil
  | cons hab _ ih =>
    refine .cons (hRS _ List.mem_cons_self _ List.mem_cons_self hab) (ih fun a ha b hb => ?_)
    exact hRS a (List.mem_cons_of_mem _ ha) b (List.mem_cons_of_mem _ hb)

open ChainScript.Tree

/-- How the results of two readings are related: values, places, nodes and faults, and the values
that the trees were made from. -/
structure Likeness where
  value : Value → Value → Prop
  place : Option Location → Option Location → Prop
  source : Value → Value → Prop
  node : Node → Node → Prop
  fault : TreeFault → TreeFault → Prop
  -- Nodes that are made of related parts are related.
  literal {v v' : Value} {l l' : Option Location} (hv : value v v') (hl : place l l') :
    node (.literal v l) (.literal v' l')
  undefined {l l' : Option Location} (hl : place l l') :
    node (.literal .undefined l) (.literal .undefined l')
  identifier {v v' : Value} {l l' : Option Location} (hv : value v v') (hl : place l l') :
    node (.identifier v l) (.identifier v' l')
  member {a a' : Node} {v v' : Value} {l l' : Option Location} (ha : node a a') (hv : value v v')
    (hl : place l l') : node (.member a v l) (.member a' v' l')
  index {a a' b b' : Node} {l l' : Option Location} (ha : node a a') (hb : node b b')
    (hl : place l l') : node (.index a b l) (.index a' b' l')
  chain {a a' b b' : Node} {l l' : Option Location} (ha : node a a') (hb : node b b')
    (hl : place l l') : node (.chain a b l) (.chain a' b' l')
  superMember {v v' : Value} {l l' : Option Location} (hv : value v v') (hl : place l l') :
    node (.superMember v l) (.superMember v' l')
  assign {a a' b b' : Node} {l l' : Option Location} (ha : node a a') (hb : node b b')
    (hl : place l l') : node (.assign a b l) (.assign a' b' l')
  delete {a a' : Node} {l l' : Option Location} (ha : node a a') (hl : place l l') :
    node (.delete a l) (.delete a' l')
  call {a a' : Node} {ns ns' : List Node} {l l' : Option Location} (ha : node a a')
    (hns : List.Forall₂ node ns ns') (hl : place l l') : node (.call a ns l) (.call a' ns' l')
  objectLiteral {ps ps' : List (Value × Node)} {l l' : Option Location}
    (hps : List.Forall₂ (fun p p' => value p.1 p'.1 ∧ node p.2 p'.2) ps ps') (hl : place l l') :
    node (.objectLiteral ps l) (.objectLiteral ps' l')
  program {ns ns' : List Node} (strict : Bool) {l l' : Option Location}
    (hns : List.Forall₂ node ns ns') (hl : place l l') :
    node (.program ns strict l) (.program ns' strict l')
  list {ns ns' : List Node} (hns : List.Forall₂ node ns ns') : node (.list ns) (.list ns')
  -- Faults that are found alike are related.
  notOneChild (tag : String) (count : Nat) : fault (.notOneChild tag count) (.notOneChild tag count)
  notTwoOperands (tag : String) (count : Nat) :
    fault (.notTwoOperands tag count) (.notTwoOperands tag count)
  notOneOperand : fault .notOneOperand .notOneOperand
  noCallee : fault .noCallee .noCallee
  notProperty {v v' : Value} (hv : source v v') : fault (.notProperty v) (.notProperty v')
  unknownTag {v v' : Value} (hv : value v v') : fault (.unknownTag v) (.unknownTag v')

namespace Likeness

variable (A : Likeness)

/-- Trees that are related as expressions. -/
def Denotes (t t' : Tree) : Prop := Alongside A.fault A.node (toNode t) (toNode t')

/-- Trees that are related as names. -/
def Names (t t' : Tree) : Prop := Alongside A.fault A.value (nameValue t) (nameValue t')

/-- Trees that are related as properties of an object. -/
def Properties (t t' : Tree) : Prop :=
  Alongside A.fault (fun p p' => A.value p.1 p'.1 ∧ A.node p.2 p'.2) (propertyNode toNode t)
    (propertyNode toNode t')

/-- Trees that are related in every part that they can play as operands. -/
structure Plays (t t' : Tree) : Prop where
  denotes : A.Denotes t t'
  names : A.Names t t'
  properties : A.Properties t t'
  arguments : Alongside A.fault (List.Forall₂ A.Denotes) (argumentsOf t) (argumentsOf t')

/-- Operands of calls that are related: a callee each, and arguments. -/
inductive Calls : List Tree → List Tree → Prop
  | nobody : Calls [] []
  | call {callee callee' : Tree} {rest rest' : List Tree} (hcallee : A.Denotes callee callee')
    (hrest : Alongside A.fault (List.Forall₂ A.Denotes) (argumentTrees rest) (argumentTrees rest')) :
    Calls (callee :: rest) (callee' :: rest')

/-- Statements of programs that are related: what is left of them, and what they ask for. -/
def Bodies (ts ts' : List Tree) : Prop :=
  List.Forall₂ A.Denotes (bodyTrees ts) (bodyTrees ts') ∧ strictTrees ts = strictTrees ts'

/-! ## One form at a time -/

section

variable {A : Likeness} {self self' : Value} {entries entries' : List (Value × Tree)}

/-- Nodes of one operand are made alongside. -/
theorem soleNode {fault : Nat → TreeFault} (hfault : ∀ count, A.fault (fault count) (fault count))
    (hops : Alongside A.fault (List.Forall₂ A.Denotes) (operandTrees entries)
      (operandTrees entries')) :
    Alongside A.fault A.node (Tree.soleNode toNode fault entries)
      (Tree.soleNode toNode fault entries') := by
  refine hops.bind fun ts ts' hts => ?_
  rcases hts with _ | ⟨ht, _ | ⟨_, hrest⟩⟩
  · exact .error (hfault 0)
  · exact ht
  · simp only [sole, List.length_cons, hrest.length_eq]
    exact .error (hfault _)

/-- Two operands each that are related part by part, or neither list is two operands. -/
theorem both {R S : Tree → Tree → Prop} (tag : String) {ts ts' : List Tree}
    (hts : List.Forall₂ (fun t t' => R t t' ∧ S t t') ts ts') :
    Alongside A.fault (fun p p' => R p.1 p'.1 ∧ S p.2 p'.2) (Tree.both tag ts)
      (Tree.both tag ts') := by
  rcases hts with _ | ⟨ha, _ | ⟨hb, _ | ⟨_, hrest⟩⟩⟩
  · exact .error (A.notTwoOperands tag 0)
  · exact .error (A.notTwoOperands tag 1)
  · exact .ok ⟨ha.1, hb.2⟩
  · simp only [Tree.both, List.length_cons, hrest.length_eq]
    exact .error (A.notTwoOperands tag _)

/-- Nodes of two operands are made alongside. -/
theorem binaryNode {tag : String} {make make' : Node → Node → Node}
    (hmake : ∀ a a' b b', A.node a a' → A.node b b' → A.node (make a b) (make' a' b'))
    (hops : Alongside A.fault (List.Forall₂ A.Denotes) (operandTrees entries)
      (operandTrees entries')) :
    Alongside A.fault A.node (Tree.binaryNode toNode tag make entries)
      (Tree.binaryNode toNode tag make' entries') := by
  refine hops.bind fun ts ts' hts => ?_
  refine (both tag (hts.imp fun t t' h => ⟨h, h⟩)).bind fun p p' hp => ?_
  refine hp.1.bind fun a a' ha => ?_
  exact hp.2.bind fun b b' hb => .ok (hmake a a' b b' ha hb)

/-- Members are made alongside. -/
theorem memberNode (hl : A.place (location? entries) (location? entries'))
    (hops : Alongside A.fault (fun p p' => A.Denotes p.1 p'.1 ∧ A.Names p.2 p'.2)
      (operandTrees entries >>= Tree.both "member") (operandTrees entries' >>= Tree.both "member")) :
    Alongside A.fault A.node (Tree.memberNode toNode entries) (Tree.memberNode toNode entries') := by
  rw [Tree.memberNode, Tree.memberNode, ← bind_assoc, ← bind_assoc]
  refine hops.bind fun p p' hp => ?_
  refine hp.1.bind fun a a' ha => ?_
  exact hp.2.bind fun v v' hv => .ok (A.member ha hv hl)

/-- Members of the parent are made alongside. -/
theorem superNode (hl : A.place (location? entries) (location? entries'))
    (hops : Alongside A.fault
      (fun ts ts' => A.Names (ts.headD (.dict self entries)) (ts'.headD (.dict self' entries')))
      (operandTrees entries) (operandTrees entries')) :
    Alongside A.fault A.node (Tree.superNode self entries) (Tree.superNode self' entries') := by
  refine hops.bind fun ts ts' hts => ?_
  exact hts.bind fun v v' hv => .ok (A.superMember hv hl)

/-- Deletes are made alongside. -/
theorem deleteNode (hl : A.place (location? entries) (location? entries'))
    (hops : Alongside A.fault (List.Forall₂ A.Denotes) (operandTrees entries)
      (operandTrees entries')) :
    Alongside A.fault A.node
      (Tree.soleNode toNode (fun _ => .notOneOperand) entries >>= fun n =>
        .ok (.delete n (location? entries)))
      (Tree.soleNode toNode (fun _ => .notOneOperand) entries' >>= fun n =>
        .ok (.delete n (location? entries'))) :=
  (soleNode (fun _ => A.notOneOperand) hops).bind fun _ _ ha => .ok (A.delete ha hl)

/-- Calls are made alongside. -/
theorem callNode (hl : A.place (location? entries) (location? entries'))
    (hops : Alongside A.fault A.Calls (operandTrees entries) (operandTrees entries')) :
    Alongside A.fault A.node (Tree.callNode toNode entries) (Tree.callNode toNode entries') := by
  refine hops.bind fun ts ts' hts => ?_
  cases hts with
  | nobody => exact .error A.noCallee
  | call hcallee hrest =>
    refine hrest.bind fun args args' hargs => ?_
    refine hcallee.bind fun a a' ha => ?_
    exact (Alongside.mapM hargs fun _ _ h => h).bind fun ns ns' hns => .ok (A.call ha hns hl)

/-- Object literals are made alongside. -/
theorem objectNode (hl : A.place (location? entries) (location? entries'))
    (hops : Alongside A.fault (List.Forall₂ A.Properties) (operandTrees entries)
      (operandTrees entries')) :
    Alongside A.fault A.node (Tree.objectNode toNode entries) (Tree.objectNode toNode entries') := by
  refine hops.bind fun ts ts' hts => ?_
  exact (Alongside.mapM hts fun _ _ h => h).bind fun ps ps' hps => .ok (A.objectLiteral hps hl)

/-- Programs are made alongside. -/
theorem programNode (hl : A.place (location? entries) (location? entries'))
    (hitems : Alongside A.fault A.Bodies (statementTrees entries) (statementTrees entries')) :
    Alongside A.fault A.node (Tree.programNode toNode entries)
      (Tree.programNode toNode entries') := by
  refine hitems.bind fun ts ts' hts => ?_
  refine (Alongside.mapM hts.1 fun _ _ h => h).bind fun ns ns' hns => ?_
  rw [← hts.2]
  exact .ok (A.program _ hns hl)

/-- The name and the value that a property is of two operands. -/
theorem properties_dict (htag : tag? entries' = tag? entries) (hself : A.source self self')
    (hops : tag? entries = some "property" →
      Alongside A.fault (fun p p' => A.Names p.1 p'.1 ∧ A.Denotes p.2 p'.2)
        (operandTrees entries >>= Tree.both "property")
        (operandTrees entries' >>= Tree.both "property")) :
    A.Properties (.dict self entries) (.dict self' entries') := by
  unfold Properties propertyNode
  simp only [propertyTrees, htag]
  split
  next h =>
    refine (hops h).bind fun p p' hp => ?_
    refine hp.1.bind fun v v' hv => ?_
    exact hp.2.bind fun n n' hn => .ok ⟨hv, hn⟩
  next => exact .error (A.notProperty hself)

/-- Trees that play the same parts in a call have arguments that denote alike. -/
theorem argumentTrees {ts ts' : List Tree} (hts : List.Forall₂ A.Plays ts ts') :
    Alongside A.fault (List.Forall₂ A.Denotes) (Tree.argumentTrees ts) (Tree.argumentTrees ts') := by
  induction hts with
  | nil => exact .ok .nil
  | cons ht _ ih =>
    refine ht.arguments.bind fun here here' hhere => ?_
    exact ih.bind fun rest rest' hrest => .ok (List.rel_append hhere hrest)

end

/-! ## Every form -/

/-- Dictionaries whose fields are related, but perhaps for the children. -/
structure Fields (v v' : Value) (entries entries' : List (Value × Tree)) : Prop where
  source : A.source v v'
  tag : tag? entries' = tag? entries
  tagValue : A.value (fieldValue entries "tag") (fieldValue entries' "tag")
  typed : A.value (fieldValue entries "value") (fieldValue entries' "value")
  text : Alongside A.fault A.value (Tree.text entries) (Tree.text entries')
  number : Alongside A.fault A.value (Tree.number v entries) (Tree.number v' entries')
  name : A.Names (.dict v entries) (.dict v' entries')
  place : A.place (location? entries) (location? entries')

variable {A : Likeness} {self self' : Value} {entries entries' : List (Value × Tree)}

/-- Lists of trees that denote alike denote alike. -/
theorem denotes_list {items items' : List Tree} (hitems : List.Forall₂ A.Denotes items items') :
    A.Denotes (.list self items) (.list self' items') := by
  unfold Denotes
  rw [toNode_list, toNode_list]
  exact (Alongside.mapM hitems fun _ _ h => h).bind fun ns ns' hns => .ok (A.list hns)

/-- Dictionaries of trees with like fields and operands denote alike. -/
theorem denotes_dict (hfields : A.Fields self self' entries entries')
    (hops : Alongside A.fault (List.Forall₂ A.Plays) (operandTrees entries) (operandTrees entries'))
    (hitems : tag? entries = some "program" →
      Alongside A.fault A.Bodies (statementTrees entries) (statementTrees entries')) :
    A.Denotes (.dict self entries) (.dict self' entries') := by
  have hl := hfields.place
  have hexpressions := hops.mono fun _ _ h => h.imp fun _ _ h => h.denotes
  unfold Denotes
  rw [toNode_dict, toNode_dict]
  unfold dictNode
  rw [hfields.tag]
  split
  next htag => exact programNode hl (hitems htag)
  next => exact soleNode (A.notOneChild _) hexpressions
  next => exact soleNode (A.notOneChild _) hexpressions
  next => exact hfields.number.bind fun _ _ hv => .ok (A.literal hv hl)
  next => exact hfields.text.bind fun _ _ hv => .ok (A.literal hv hl)
  next => exact .ok (A.literal hfields.typed hl)
  next => exact .ok (A.literal hfields.typed hl)
  next => exact .ok (A.undefined hl)
  next => exact hfields.text.bind fun _ _ hv => .ok (A.identifier hv hl)
  next => exact hfields.text.bind fun _ _ hv => .ok (A.identifier hv hl)
  next =>
    exact memberNode hl <| hops.bind fun _ _ hts =>
      both "member" (hts.imp fun _ _ h => ⟨h.denotes, h.names⟩)
  next => exact binaryNode (fun _ _ _ _ ha hb => A.index ha hb hl) hexpressions
  next => exact binaryNode (fun _ _ _ _ ha hb => A.chain ha hb hl) hexpressions
  next =>
    refine superNode hl (hops.mono fun _ _ hts => ?_)
    rcases hts with _ | ⟨ht, _⟩
    · exact hfields.name
    · exact ht.names
  next => exact binaryNode (fun _ _ _ _ ha hb => A.assign ha hb hl) hexpressions
  next => exact deleteNode hl hexpressions
  next =>
    refine callNode hl (hops.mono fun _ _ hts => ?_)
    rcases hts with _ | ⟨ht, hrest⟩
    · exact .nobody
    · exact .call ht.denotes (argumentTrees hrest)
  next => exact objectNode hl (hops.mono fun _ _ h => h.imp fun _ _ h => h.properties)
  next => exact .error (A.unknownTag hfields.tagValue)

/-- Dictionaries are related in every part if their fields and operands are. Only the statements of
a program are more than operands. -/
theorem plays_dict (hfields : A.Fields self self' entries entries')
    (hops : Alongside A.fault (List.Forall₂ A.Plays) (operandTrees entries) (operandTrees entries'))
    (hitems : tag? entries = some "program" →
      Alongside A.fault A.Bodies (statementTrees entries) (statementTrees entries')) :
    A.Plays (.dict self entries) (.dict self' entries') where
  denotes := denotes_dict hfields hops hitems
  names := hfields.name
  properties := properties_dict hfields.tag hfields.source fun _ => hops.bind fun _ _ hts =>
    both "property" (hts.imp fun _ _ h => ⟨h.names, h.denotes⟩)
  arguments := by
    simp only [argumentsOf, hfields.tag]
    split
    next => exact hops.mono fun _ _ h => h.imp fun _ _ h => h.denotes
    next => exact .ok (.cons (denotes_dict hfields hops hitems) .nil)

/-- Trees that are no dictionaries are related in every part if they are as expressions and as
names. -/
theorem plays_plain {t t' : Tree} (ht : ∀ self entries, t ≠ .dict self entries)
    (ht' : ∀ self entries, t' ≠ .dict self entries) (hdenotes : A.Denotes t t')
    (hnames : A.Names t t') (hself : A.source t.toValue t'.toValue) : A.Plays t t' where
  denotes := hdenotes
  names := hnames
  properties := by
    cases t with
    | dict self entries => exact (ht self entries rfl).elim
    | _ => cases t' with
      | dict self entries => exact (ht' self entries rfl).elim
      | _ => exact .error (A.notProperty hself)
  arguments := by
    cases t with
    | dict self entries => exact (ht self entries rfl).elim
    | _ => cases t' with
      | dict self entries => exact (ht' self entries rfl).elim
      | _ => exact .ok (.cons hdenotes .nil)

end Likeness

end ChainScript
