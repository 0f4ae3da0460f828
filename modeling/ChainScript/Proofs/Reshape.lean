import ChainScript.Proofs.Relocate

/-!
# Named and listed children

Children can stand in a list or, under names, in a dictionary. `Tree.Reshaped` relates trees that
differ in nothing else: anywhere in them a list of children may have become a dictionary of the same
children in the same order, or the other way round, or the names may be others. What is read is the
same then (`Tree.reshaped_children_are_read_alike`), but for one node. The children of a program are
gone through as they are, and going through a dictionary yields its names, so that a program with
named children is made of the names and not of the children (`Tree.toNode_namedProgram`). The
theorem keeps the children of programs in their shape; `Tree.named_statements_are_not_read` is a
program that denotes something else when its children are named.
-/

namespace ChainScript

namespace Tree

/-- The children that a list or a dictionary holds. -/
def held? : Tree → Option (List Tree)
  | .list _ items => some items
  | .dict _ named => some (named.map Prod.snd)
  | _ => none

/-- The names of the children, where they have names. -/
def names? : Tree → Option (List Value)
  | .dict _ named => some (named.map Prod.fst)
  | _ => none

/-- Two dictionaries with the same fields but perhaps for the children. -/
def SameFields (entries entries' : List (Value × Tree)) : Prop :=
  ∀ name, name ≠ "children" → Agree entries entries' name

/-- The same tree but for the shape of children. A list stays a list and names stay the same names,
but under the tags for which the shape is free. -/
inductive Reshaped (free : Option String → Prop) : Tree → Tree → Prop
  | same (t : Tree) : Reshaped free t t
  | list {self self' : Value} {items items' : List Tree}
    (hitems : List.Forall₂ (Reshaped free) items items') :
    Reshaped free (.list self items) (.list self' items')
  | unheld {self self' : Value} {entries entries' : List (Value × Tree)}
    (hfields : SameFields entries entries')
    (hchildren : field? entries "children" = field? entries' "children") :
    Reshaped free (.dict self entries) (.dict self' entries')
  | held {self self' : Value} {entries entries' : List (Value × Tree)} {t t' : Tree}
    {ts ts' : List Tree} (hfields : SameFields entries entries')
    (ht : field? entries "children" = some t) (ht' : field? entries' "children" = some t')
    (hts : t.held? = some ts) (hts' : t'.held? = some ts')
    (hshape : t.names? = t'.names? ∨ free (tag? entries))
    (hchildren : List.Forall₂ (Reshaped free) ts ts') :
    Reshaped free (.dict self entries) (.dict self' entries')

section

variable {free : Option String → Prop} {entries entries' : List (Value × Tree)} {t t' : Tree}

/-- Entries with the same fields have the same text. -/
theorem SameFields.sameText (h : SameFields entries entries') : SameText entries entries' where
  tag := h "tag" (by decide)
  text := h "text" (by decide)
  value := h "value" (by decide)

/-- They give the same place in the text. -/
theorem SameFields.location?_eq (h : SameFields entries entries') :
    location? entries = location? entries' := by
  have heq : ∀ name, name ≠ "children" → fieldValue entries name = fieldValue entries' name :=
    fun name hname => (h name hname).fieldValue_eq
  rw [location?, location?, heq "line" (by decide), heq "col" (by decide), heq "tag" (by decide),
    heq "text" (by decide)]

/-- Their fields are alike. -/
theorem SameFields.fields (h : SameFields entries entries') (self self' : Value) :
    (Likeness.upTo id).Fields self self' entries entries' :=
  Likeness.fields_upTo h.sameText h.location?_eq

/-- The operands of a dictionary are the trees that its children hold. -/
theorem operandTrees_held {ts : List Tree} (ht : field? entries "children" = some t)
    (hts : t.held? = some ts) : operandTrees entries = .ok ts := by
  rw [operandTrees, ht]
  cases t <;> cases hts <;> rfl

/-- Where children have the same names, statements are the children or else the names. -/
theorem statementTrees_held {ts ts' : List Tree} (ht : field? entries "children" = some t)
    (ht' : field? entries' "children" = some t') (hts : t.held? = some ts)
    (hts' : t'.held? = some ts') (hnames : t.names? = t'.names?) :
    (statementTrees entries = .ok ts ∧ statementTrees entries' = .ok ts') ∨
      statementTrees entries = statementTrees entries' := by
  rw [statementTrees, statementTrees, ht, ht']
  cases t with
  | leaf v => cases hts
  | iterable self items => cases hts
  | list self items =>
    cases t' with
    | list self' items' =>
      cases hts
      cases hts'
      exact .inl ⟨rfl, rfl⟩
    | dict self' named' => cases hnames
    | _ => cases hts'
  | dict self named =>
    cases t' with
    | dict self' named' =>
      have hleaves := congrArg (List.map leaf) (Option.some.inj hnames)
      rw [List.map_map, List.map_map] at hleaves
      exact .inr (congrArg Except.ok hleaves)
    | list self' items' => cases hnames
    | _ => cases hts'

/-- Reshaped trees have the same tag. -/
theorem Reshaped.tagOf?_eq (h : Reshaped free t t') : t.tagOf? = t'.tagOf? := by
  cases h with
  | same t => rfl
  | list hitems => rfl
  | unheld hfields hchildren => exact hfields.sameText.tag?_eq
  | held hfields => exact hfields.sameText.tag?_eq

/-- Reshaped trees ask alike for strictness. -/
theorem Reshaped.isStrictDirective_eq (h : Reshaped free t t') :
    t.isStrictDirective = t'.isStrictDirective := by
  cases h with
  | same t => rfl
  | list hitems => rfl
  | unheld hfields hchildren => exact hfields.sameText.isStrictDirective_eq
  | held hfields => exact hfields.sameText.isStrictDirective_eq

/-- What is left of reshaped statements are the reshaped ones that are left. -/
theorem bodyTrees_reshaped {ts ts' : List Tree} (hts : List.Forall₂ (Reshaped free) ts ts') :
    List.Forall₂ (Reshaped free) (bodyTrees ts) (bodyTrees ts') := by
  refine List.rel_filter (fun t t' h => ?_) hts
  show (!t.isAside) = true ↔ (!t'.isAside) = true
  rw [isAside_congr h.tagOf?_eq]

/-- Reshaped trees ask for strictness where the trees do. -/
theorem strictTrees_reshaped {ts ts' : List Tree} (hts : List.Forall₂ (Reshaped free) ts ts') :
    strictTrees ts = strictTrees ts' := by
  unfold strictTrees
  induction hts with
  | nil => rfl
  | cons h _ ih =>
    rw [List.takeWhile_cons, List.takeWhile_cons, isAside_congr h.tagOf?_eq]
    split
    · rw [List.any_cons, List.any_cons, h.isStrictDirective_eq, ih]
    · rfl

/-- Reshaped trees are related in every part, where the children of programs keep their shape. -/
theorem Reshaped.plays (hfree : ¬ free (some "program")) {t t' : Tree} (h : Reshaped free t t') :
    (Likeness.upTo id).Plays t t' := by
  cases h with
  | same => exact Likeness.plays_refl t
  | list hitems =>
    refine Likeness.plays_plain (fun _ _ => nofun) (fun _ _ => nofun)
      (Likeness.denotes_list ?_) (.error rfl) trivial
    refine forall₂_imp_of_mem hitems fun t ht t' _ h => ?_
    have hlt := Nat.lt_succ_of_le (height_le_heightAll ht)
    exact (h.plays hfree).denotes
  | unheld hfields hchildren =>
    exact Likeness.plays_of_children hfields.sameText hfields.location?_eq hchildren
  | @held self self' entries entries' t t' ts ts' hfields ht ht' hts hts' hshape hchildren =>
    have hoperands := operandTrees_held ht hts
    have hplays : List.Forall₂ (Likeness.upTo id).Plays ts ts' := by
      refine forall₂_imp_of_mem hchildren fun t ht t' _ h => ?_
      have hlt := height_lt_of_operandTrees hoperands ht
      exact h.plays hfree
    refine Likeness.plays_dict (hfields.fields self self') ?_ fun htag => ?_
    · rw [hoperands, operandTrees_held ht' hts']
      exact .ok hplays
    · have hnames : t.names? = t'.names? := hshape.resolve_right fun hf => hfree (htag ▸ hf)
      rcases statementTrees_held ht ht' hts hts' hnames with ⟨hitems, hitems'⟩ | hitems
      · rw [hitems, hitems']
        refine .ok ⟨?_, strictTrees_reshaped hchildren⟩
        refine forall₂_imp_of_mem (bodyTrees_reshaped hchildren) fun t ht t' _ h => ?_
        have hlt := height_lt_of_operandTrees hoperands (List.mem_of_mem_filter ht)
        exact (h.plays hfree).denotes
      · rw [hitems]
        exact Likeness.alongside_refl Likeness.bodies_refl _
termination_by t.height

/-- Leaves in a row denote their literals. -/
theorem mapM_toNode_leaf (vs : List Value) :
    (vs.map leaf).mapM toNode = .ok (vs.map fun v => .literal v none) := by
  induction vs with
  | nil => rfl
  | cons v vs ih =>
    rw [List.map_cons, List.mapM_cons, toNode_leaf, ih]
    rfl

/-- A program whose children have names is made of the names. -/
theorem toNode_namedProgram {self self' : Value} {named : List (Value × Tree)}
    (htag : tag? entries = some "program")
    (hchildren : field? entries "children" = some (.dict self' named)) :
    toNode (.dict self entries) =
      .ok (.program (named.map fun e => .literal e.1 none) false (location? entries)) := by
  have hitems : statementTrees entries = .ok ((named.map Prod.fst).map leaf) := by
    rw [statementTrees, hchildren, List.map_map]
    rfl
  have hbody : ∀ vs : List Value, bodyTrees (vs.map leaf) = vs.map leaf := by
    intro vs
    refine List.filter_eq_self.mpr fun t ht => ?_
    obtain ⟨v, -, rfl⟩ := List.mem_map.mp ht
    rfl
  have hstrict : ∀ vs : List Value, strictTrees (vs.map leaf) = false := by
    intro vs
    cases vs <;> rfl
  rw [toNode_program htag hitems, hbody, hstrict, mapM_toNode_leaf, List.map_map]
  rfl

end

/-- Trees that differ only in the shape of the children of nodes other than programs denote the same
node in the same places, or are faulty in the same way. -/
theorem reshaped_children_are_read_alike {free : Option String → Prop}
    (hfree : ¬ free (some "program")) {t t' : Tree} (h : Reshaped free t t') :
    Alongside (fun e e' => e.kind = e'.kind) (· = ·) (toNode t) (toNode t') := by
  refine (h.plays hfree).denotes.mono fun n n' hn => ?_
  simpa [Likeness.upTo] using hn

/-- A dictionary that ends with its children has the same fields with other children. -/
theorem sameFields_children (entries : List (Value × Tree)) (t t' : Tree) :
    SameFields (entries ++ [(.str "children", t)]) (entries ++ [(.str "children", t')]) := by
  intro name hname
  have hother : (Value.str "children" == Value.str name) = false := by
    rw [beq_eq_false_iff_ne]
    intro h
    exact hname (Value.str.inj h).symm
  unfold Agree field?
  simp only [List.find?_append, List.find?_cons, hother, List.find?_nil]

/-- Children that are all that a node has may be given names. -/
theorem reshaped_named {free : Option String → Prop} {tag : String} (hfree : free (some tag))
    (named : List (Value × Tree)) :
    Reshaped free (tagged tag [("children", .list .null (named.map Prod.snd))])
      (tagged tag [("children", .dict .null named)]) :=
  .held (sameFields_children [(.str "tag", .leaf (.str tag))] _ _) rfl rfl rfl rfl (.inr hfree)
    (List.forall₂_same.mpr fun t _ => .same t)

/-- The operands of `x.y`, with names. -/
def namedOperands : List (Value × Tree) :=
  [(.str "object", tagged "identifier" [("text", .leaf (.str "x"))]),
    (.str "name", tagged "identifier" [("text", .leaf (.str "y"))])]

/-- The operands of `x.y` may have names. -/
theorem named_operands_are_read :
    Alongside (fun e e' => e.kind = e'.kind) (· = ·)
      (toNode (tagged "member" [("children", .list .null (namedOperands.map Prod.snd))]))
      (toNode (tagged "member" [("children", .dict .null namedOperands)])) := by
  have hshape : Reshaped (· ≠ some "program")
      (tagged "member" [("children", .list .null (namedOperands.map Prod.snd))])
      (tagged "member" [("children", .dict .null namedOperands)]) :=
    reshaped_named (by decide) namedOperands
  exact reshaped_children_are_read_alike (fun hprogram => hprogram rfl) hshape

/-- If the shape of the children of programs is free as well, trees may denote different nodes. -/
theorem named_statements_are_not_read :
    ∃ t t' : Tree, Reshaped (fun _ => True) t t' ∧
      ¬ Alongside (fun e e' => e.kind = e'.kind) (· = ·) (toNode t) (toNode t') := by
  refine ⟨tagged "program" [("children", .list .null (namedOperands.map Prod.snd))],
    tagged "program" [("children", .dict .null namedOperands)], reshaped_named trivial _, ?_⟩
  have hlisted : toNode (tagged "program" [("children", .list .null (namedOperands.map Prod.snd))]) =
      .ok (.program [.identifier (.str "x") none, .identifier (.str "y") none] false none) := by
    unfold tagged
    refine (toNode_program rfl rfl).trans ?_
    show (List.mapM toNode [_, _] >>= _) = _
    rw [List.mapM_cons, List.mapM_cons, List.mapM_nil]
    rw [toNode_tagged_identifier, toNode_tagged_identifier]
    rfl
  have hnamed : toNode (tagged "program" [("children", .dict .null namedOperands)]) =
      .ok (.program (namedOperands.map fun e => .literal e.1 none) false none) := by
    unfold tagged
    exact toNode_namedProgram rfl rfl
  rw [hlisted, hnamed]
  rintro ⟨h⟩
  cases h

end Tree

end ChainScript
