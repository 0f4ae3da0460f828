import ChainScript.Proofs.Relocate

/-!
# Noise in trees

What a tree says can be written with more or less around it. `Tree.Noise` relates a tree to every
tree that says the same with other noise: expressions and statements may be wrapped in `expr` and
`group` nodes, a program may have more comments among its children, more directives that are not
known, and more directives of any kind after its first statement, the arguments of a call may be put
into other `args` groups, and every node may say where it stands or not. All of it can be done
together, at any depth. `Tree.noise_is_not_read` says that the nodes that are denoted differ in
nothing but their places.

A wrapped tree denotes what the tree in it denotes, and a call the same for all groupings of its
arguments. The one condition that looks at the order of things is that of strictness, which
`Tree.Padded.strictTrees_eq` follows through the children of a program.
-/

namespace ChainScript

namespace Tree

/-! ## Trees with noise -/

/-- Names that are the same but perhaps for their places. -/
inductive SameName : Tree → Tree → Prop
  | same (t : Tree) : SameName t t
  | moved {self self' : Value} {entries entries' : List (Value × Tree)}
    (hsame : SameText entries entries') : SameName (.dict self entries) (.dict self' entries')

/-- The operands of a call after the callee, and the arguments that they are. -/
inductive Grouped : List Tree → List Tree → Prop
  | nil : Grouped [] []
  | bare {t : Tree} {ts args : List Tree} (ht : t.tagOf? ≠ some "args") (hts : Grouped ts args) :
    Grouped (t :: ts) (t :: args)
  | group {self : Value} {entries : List (Value × Tree)} {items ts args : List Tree}
    (htag : tag? entries = some "args") (hitems : operandTrees entries = .ok items)
    (hts : Grouped ts args) : Grouped (.dict self entries :: ts) (items ++ args)

/-- Properties with the same name and related values. -/
inductive SameProperty (R : Tree → Tree → Prop) : Tree → Tree → Prop
  | property {self self' : Value} {entries entries' : List (Value × Tree)} {name name' t t' : Tree}
    (htag : tag? entries = some "property") (htag' : tag? entries' = some "property")
    (hops : operandTrees entries = .ok [name, t]) (hops' : operandTrees entries' = .ok [name', t'])
    (hname : SameName name name') (ht : R t t') :
    SameProperty R (.dict self entries) (.dict self' entries')

/-- Children of a program, and the same with more comments and directives between them. Whether a
statement was seen before decides which directives may be more. -/
inductive Padded (R : Tree → Tree → Prop) : Bool → List Tree → List Tree → Prop
  | nil {seen : Bool} : Padded R seen [] []
  | statement {seen : Bool} {t t' : Tree} {ts ts' : List Tree} (hstatement : t.isAside = false)
    (ht : R t t') (hts : Padded R true ts ts') : Padded R seen (t :: ts) (t' :: ts')
  | aside {seen : Bool} {self self' : Value} {entries entries' : List (Value × Tree)}
    {ts ts' : List Tree} (haside : (dict self entries).isAside = true)
    (hsame : SameText entries entries') (hts : Padded R seen ts ts') :
    Padded R seen (.dict self entries :: ts) (.dict self' entries' :: ts')
  | comment {seen : Bool} {t : Tree} {ts ts' : List Tree} (ht : t.isComment = true)
    (hts : Padded R seen ts ts') : Padded R seen ts (t :: ts')
  | unknown {seen : Bool} {t : Tree} {ts ts' : List Tree} (ht : t.isDirective = true)
    (hunknown : t.isStrictDirective = false) (hts : Padded R seen ts ts') :
    Padded R seen ts (t :: ts')
  | late {t : Tree} {ts ts' : List Tree} (ht : t.isDirective = true) (hts : Padded R true ts ts') :
    Padded R true ts (t :: ts')

/-- The tags of nodes whose operands are all expressions. -/
def expressionTags : List String := ["expr", "group", "index", "chain", "assign", "delete"]

/-- A tree, and the same tree with other noise. -/
inductive Noise : Tree → Tree → Prop
  | same (t : Tree) : Noise t t
  | moved {self self' : Value} {entries entries' : List (Value × Tree)}
    (hsame : SameText entries entries')
    (hchildren : field? entries "children" = field? entries' "children") :
    Noise (.dict self entries) (.dict self' entries')
  | wrapped {t t' : Tree} {self : Value} {entries : List (Value × Tree)} {tag : String}
    (hwrap : tag = "expr" ∨ tag = "group") (htag : tag? entries = some tag)
    (hops : operandTrees entries = .ok [t']) (ht : Noise t t') : Noise t (.dict self entries)
  | list {self self' : Value} {items items' : List Tree} (hitems : List.Forall₂ Noise items items') :
    Noise (.list self items) (.list self' items')
  | expressions {self self' : Value} {entries entries' : List (Value × Tree)} {tag : String}
    {ts ts' : List Tree} (hsame : SameText entries entries') (hexpressions : tag ∈ expressionTags)
    (htag : tag? entries = some tag) (hops : operandTrees entries = .ok ts)
    (hops' : operandTrees entries' = .ok ts') (hts : List.Forall₂ Noise ts ts') :
    Noise (.dict self entries) (.dict self' entries')
  | member {self self' : Value} {entries entries' : List (Value × Tree)} {t t' name name' : Tree}
    (hsame : SameText entries entries') (htag : tag? entries = some "member")
    (hops : operandTrees entries = .ok [t, name]) (hops' : operandTrees entries' = .ok [t', name'])
    (ht : Noise t t') (hname : SameName name name') :
    Noise (.dict self entries) (.dict self' entries')
  | superMember {self self' : Value} {entries entries' : List (Value × Tree)} {ts ts' : List Tree}
    (hsame : SameText entries entries') (htag : tag? entries = some "super-member")
    (hops : operandTrees entries = .ok ts) (hops' : operandTrees entries' = .ok ts')
    (hts : List.Forall₂ SameName ts ts') : Noise (.dict self entries) (.dict self' entries')
  | call {self self' : Value} {entries entries' : List (Value × Tree)} {callee callee' : Tree}
    {ts ts' args args' : List Tree} (hsame : SameText entries entries')
    (htag : tag? entries = some "call") (hops : operandTrees entries = .ok (callee :: ts))
    (hops' : operandTrees entries' = .ok (callee' :: ts')) (hcallee : Noise callee callee')
    (hgrouped : Grouped ts args) (hgrouped' : Grouped ts' args')
    (hargs : List.Forall₂ Noise args args') : Noise (.dict self entries) (.dict self' entries')
  | object {self self' : Value} {entries entries' : List (Value × Tree)} {ts ts' : List Tree}
    (hsame : SameText entries entries') (htag : tag? entries = some "object")
    (hops : operandTrees entries = .ok ts) (hops' : operandTrees entries' = .ok ts')
    (hts : List.Forall₂ (SameProperty Noise) ts ts') :
    Noise (.dict self entries) (.dict self' entries')
  | program {self self' : Value} {entries entries' : List (Value × Tree)} {ts ts' : List Tree}
    (hsame : SameText entries entries') (htag : tag? entries = some "program")
    (hitems : statementTrees entries = .ok ts) (hitems' : statementTrees entries' = .ok ts')
    (hts : Padded Noise false ts ts') : Noise (.dict self entries) (.dict self' entries')

/-! ## Children of programs -/

/-- A tree that is no part of the program is left out. -/
theorem bodyTrees_cons_aside {t : Tree} (ht : t.isAside = true) (ts : List Tree) :
    bodyTrees (t :: ts) = bodyTrees ts := by
  simp [bodyTrees, ht]

/-- A statement stays. -/
theorem bodyTrees_cons_statement {t : Tree} (ht : t.isAside = false) (ts : List Tree) :
    bodyTrees (t :: ts) = t :: bodyTrees ts := by
  simp [bodyTrees, ht]

/-- A tree that is no part of the program asks for strictness, or those after it do. -/
theorem strictTrees_cons_aside {t : Tree} (ht : t.isAside = true) (ts : List Tree) :
    strictTrees (t :: ts) = (t.isStrictDirective || strictTrees ts) := by
  simp [strictTrees, ht]

/-- No tree asks for strictness from the first statement on. -/
theorem strictTrees_cons_statement {t : Tree} (ht : t.isAside = false) (ts : List Tree) :
    strictTrees (t :: ts) = false := by
  simp [strictTrees, ht]

/-- A comment is no part of the program. -/
theorem isAside_of_isComment {t : Tree} (h : t.isComment = true) : t.isAside = true := by
  simp [isAside, h]

/-- Nor is a directive. -/
theorem isAside_of_isDirective {t : Tree} (h : t.isDirective = true) : t.isAside = true := by
  simp [isAside, h]

/-- What asks for strictness is a directive. -/
theorem isDirective_of_isStrictDirective {t : Tree} (h : t.isStrictDirective = true) :
    t.isDirective = true := by
  cases t with
  | dict self entries =>
    rw [isStrictDirective, Bool.and_eq_true] at h
    exact h.1
  | _ => cases h

/-- A comment is no directive. -/
theorem isStrictDirective_of_isComment {t : Tree} (h : t.isComment = true) :
    t.isStrictDirective = false := by
  by_contra hstrict
  have hdirective := isDirective_of_isStrictDirective (Bool.not_eq_false _ ▸ hstrict)
  rw [isDirective, beq_iff_eq] at hdirective
  rw [isComment, hdirective] at h
  cases h

/-- A program is strict if a directive that asks for it stands before the first statement, with
nothing but directives and comments before it. -/
theorem strictTrees_iff {ts : List Tree} :
    strictTrees ts = true ↔
      ∃ before d after, ts = before ++ d :: after ∧ d.isStrictDirective = true ∧
        ∀ t ∈ before, t.isAside = true := by
  induction ts with
  | nil => simp [strictTrees]
  | cons t ts ih =>
    cases haside : t.isAside with
    | false =>
      rw [strictTrees_cons_statement haside]
      refine ⟨fun hfalse => absurd hfalse Bool.false_ne_true, ?_⟩
      rintro ⟨before, d, after, heq, hd, hbefore⟩
      -- The first child is a directive, or stands before one: it is aside either way.
      have ht : t.isAside = true := by
        cases before with
        | nil =>
          obtain ⟨rfl, -⟩ := List.cons.inj heq
          exact isAside_of_isDirective (isDirective_of_isStrictDirective hd)
        | cons b before =>
          obtain ⟨rfl, -⟩ := List.cons.inj heq
          exact hbefore t List.mem_cons_self
      rw [haside] at ht
      cases ht
    | true =>
      rw [strictTrees_cons_aside haside, Bool.or_eq_true, ih]
      constructor
      · rintro (ht | ⟨before, d, after, rfl, hd, hbefore⟩)
        · exact ⟨[], t, ts, rfl, ht, List.forall_mem_nil _⟩
        · exact ⟨t :: before, d, after, rfl, hd, List.forall_mem_cons.mpr ⟨haside, hbefore⟩⟩
      · rintro ⟨before, d, after, heq, hd, hbefore⟩
        cases before with
        | nil =>
          obtain ⟨rfl, -⟩ := List.cons.inj heq
          exact .inl hd
        | cons b before =>
          obtain ⟨-, rfl⟩ := List.cons.inj heq
          exact .inr ⟨before, d, after, rfl, hd, fun t ht => hbefore t (List.mem_cons_of_mem _ ht)⟩

section

variable {R : Tree → Tree → Prop} {seen : Bool} {ts ts' : List Tree}

/-- What is left of the children are related statements. -/
theorem Padded.bodyTrees (h : Padded R seen ts ts')
    (haside : ∀ t t', R t t' → t.isAside = false → t'.isAside = false) :
    List.Forall₂ R (bodyTrees ts) (bodyTrees ts') := by
  induction h with
  | nil => exact .nil
  | statement ht hR _ ih =>
    rw [bodyTrees_cons_statement ht, bodyTrees_cons_statement (haside _ _ hR ht)]
    exact .cons hR ih
  | aside ht hsame _ ih =>
    rw [bodyTrees_cons_aside ht, bodyTrees_cons_aside (hsame.isAside_eq ▸ ht)]
    exact ih
  | comment ht _ ih =>
    rw [bodyTrees_cons_aside (isAside_of_isComment ht)]
    exact ih
  | unknown ht _ _ ih | late ht _ ih =>
    rw [bodyTrees_cons_aside (isAside_of_isDirective ht)]
    exact ih

/-- What is put between the children before the first statement does not ask for strictness. -/
theorem Padded.strictTrees_eq (h : Padded R seen ts ts')
    (haside : ∀ t t', R t t' → t.isAside = false → t'.isAside = false) (hseen : seen = false) :
    strictTrees ts = strictTrees ts' := by
  induction h with
  | nil => rfl
  | statement ht hR _ _ =>
    rw [strictTrees_cons_statement ht, strictTrees_cons_statement (haside _ _ hR ht)]
  | aside ht hsame _ ih =>
    rw [strictTrees_cons_aside ht, strictTrees_cons_aside (hsame.isAside_eq ▸ ht),
      hsame.isStrictDirective_eq, ih hseen]
  | comment ht _ ih =>
    rw [strictTrees_cons_aside (isAside_of_isComment ht), isStrictDirective_of_isComment ht,
      Bool.false_or, ih hseen]
  | unknown ht hunknown _ ih =>
    rw [strictTrees_cons_aside (isAside_of_isDirective ht), hunknown, Bool.false_or, ih hseen]
  | late => cases hseen

end

/-! ## Arguments -/

/-- Arguments that are grouped in some way are the same arguments. -/
theorem Grouped.argumentTrees_eq {ts args : List Tree} (h : Grouped ts args) :
    argumentTrees ts = .ok args := by
  induction h with
  | nil => rfl
  | @bare t ts args ht _ ih =>
    have hhere : argumentsOf t = .ok [t] := by
      cases t with
      | dict self entries => exact if_neg ht
      | _ => rfl
    rw [argumentTrees, hhere, ih]
    rfl
  | group htag hitems _ ih =>
    rw [argumentTrees, argumentsOf, if_pos htag, hitems, ih]
    rfl

/-- Arguments are not higher than the operands that they are taken from. -/
theorem Grouped.height_lt {ts args : List Tree} {n : Nat} (h : Grouped ts args)
    (hts : ∀ t ∈ ts, t.height < n) : ∀ t ∈ args, t.height < n := by
  induction h with
  | nil => exact nofun
  | bare _ _ ih =>
    obtain ⟨ht, hrest⟩ := List.forall_mem_cons.mp hts
    exact List.forall_mem_cons.mpr ⟨ht, ih hrest⟩
  | group htag hitems _ ih =>
    obtain ⟨hgroup, hrest⟩ := List.forall_mem_cons.mp hts
    intro t ht
    rcases List.mem_append.mp ht with ht | ht
    · have hlt := height_lt_of_operandTrees hitems ht
      rw [height] at hgroup
      omega
    · exact ih hrest t ht

/-! ## What is read -/

/-- Nodes are related if they are the same but perhaps for their places. -/
abbrev butPlaces : Likeness := .upTo fun _ => none

/-- Trees with the same name denote the same name, up to places in the text. -/
theorem SameName.names {t t' : Tree} (h : SameName t t') : butPlaces.Names t t' := by
  cases h with
  | same t => exact (Likeness.plays_refl t).names
  | moved hsame => exact (Likeness.fields_upTo hsame rfl).name

/-- A wrapped tree denotes what the tree in it denotes. -/
theorem toNode_wrapped {self : Value} {entries : List (Value × Tree)} {tag : String} {t : Tree}
    (hwrap : tag = "expr" ∨ tag = "group") (htag : tag? entries = some tag)
    (hops : operandTrees entries = .ok [t]) : toNode (.dict self entries) = toNode t := by
  rw [toNode_dict, dictNode, htag]
  rcases hwrap with rfl | rfl
  · show soleNode toNode _ entries = _
    rw [soleNode, hops]
    rfl
  · show soleNode toNode _ entries = _
    rw [soleNode, hops]
    rfl

/-- A statement with other noise is a statement. -/
theorem Noise.isAside_eq {t t' : Tree} (h : Noise t t') (ht : t.isAside = false) :
    t'.isAside = false := by
  cases h with
  | same => exact ht
  | list => rfl
  | wrapped hwrap htag =>
    rw [isAside, isDirective, isComment, tagOf?, htag]
    rcases hwrap with rfl | rfl <;> rfl
  | moved hsame | expressions hsame | member hsame | superMember hsame | call hsame | object hsame
  | program hsame => exact hsame.isAside_eq ▸ ht

/-- A property with other noise is the same property. -/
theorem SameProperty.properties {R : Tree → Tree → Prop} {p p' : Tree} (h : SameProperty R p p')
    (hR : ∀ t t', R t t' → t'.height < p'.height → butPlaces.Denotes t t') :
    butPlaces.Properties p p' := by
  cases h with
  | property htag htag' hops hops' hname ht =>
    refine Likeness.properties_dict (htag'.trans htag.symm) trivial fun _ => ?_
    rw [hops, hops']
    refine .ok ⟨hname.names, hR _ _ ht ?_⟩
    exact height_lt_of_operandTrees hops' (by simp)

/-- Trees that say the same with other noise denote the same node but perhaps for its place, or are
faulty in the same way. -/
theorem Noise.denotes {t t' : Tree} (h : Noise t t') : butPlaces.Denotes t t' := by
  cases h with
  | same => exact Likeness.denotes_refl _
  | moved hsame hchildren => exact (Likeness.plays_of_children hsame rfl hchildren).denotes
  | wrapped hwrap htag hops ht =>
    have hlt := height_lt_of_operandTrees hops List.mem_cons_self
    unfold Likeness.Denotes
    rw [toNode_wrapped hwrap htag hops]
    exact ht.denotes
  | list hitems =>
    refine Likeness.denotes_list (forall₂_imp_of_mem hitems fun t _ t' ht' h => ?_)
    have hlt := Nat.lt_succ_of_le (height_le_heightAll ht')
    exact h.denotes
  | @expressions self self' entries entries' tag ts ts' hsame hexpressions htag hops hops' hts =>
    have hdenotes : Alongside butPlaces.fault (List.Forall₂ butPlaces.Denotes)
        (operandTrees entries) (operandTrees entries') := by
      rw [hops, hops']
      refine .ok (forall₂_imp_of_mem hts fun t _ t' ht' h => ?_)
      have hlt := height_lt_of_operandTrees hops' ht'
      exact h.denotes
    unfold Likeness.Denotes
    rw [toNode_dict, toNode_dict, dictNode, dictNode, ← hsame.tag?_eq, htag]
    simp only [expressionTags, List.mem_cons, List.not_mem_nil, or_false] at hexpressions
    rcases hexpressions with rfl | rfl | rfl | rfl | rfl | rfl
    · exact Likeness.soleNode (butPlaces.notOneChild _) hdenotes
    · exact Likeness.soleNode (butPlaces.notOneChild _) hdenotes
    · exact Likeness.binaryNode (fun _ _ _ _ ha hb => butPlaces.index ha hb rfl) hdenotes
    · exact Likeness.binaryNode (fun _ _ _ _ ha hb => butPlaces.chain ha hb rfl) hdenotes
    · exact Likeness.binaryNode (fun _ _ _ _ ha hb => butPlaces.assign ha hb rfl) hdenotes
    · exact Likeness.deleteNode rfl hdenotes
  | member hsame htag hops hops' ht hname =>
    have hlt := height_lt_of_operandTrees hops' List.mem_cons_self
    unfold Likeness.Denotes
    rw [toNode_dict, toNode_dict, dictNode, dictNode, ← hsame.tag?_eq, htag]
    refine Likeness.memberNode rfl ?_
    rw [hops, hops']
    exact .ok ⟨ht.denotes, hname.names⟩
  | superMember hsame htag hops hops' hts =>
    unfold Likeness.Denotes
    rw [toNode_dict, toNode_dict, dictNode, dictNode, ← hsame.tag?_eq, htag]
    refine Likeness.superNode rfl ?_
    rw [hops, hops']
    refine .ok ?_
    -- Without operands the node has the name itself.
    rcases hts with _ | ⟨hname, _⟩
    · exact (SameName.moved hsame).names
    · exact hname.names
  | call hsame htag hops hops' hcallee hgrouped hgrouped' hargs =>
    have hbelow := List.forall_mem_cons.mp fun t ht => height_lt_of_operandTrees hops' (t := t) ht
    have hlt := hbelow.1
    unfold Likeness.Denotes
    rw [toNode_dict, toNode_dict, dictNode, dictNode, ← hsame.tag?_eq, htag]
    refine Likeness.callNode rfl ?_
    rw [hops, hops']
    refine .ok (.call hcallee.denotes ?_)
    rw [hgrouped.argumentTrees_eq, hgrouped'.argumentTrees_eq]
    refine .ok (forall₂_imp_of_mem hargs fun t _ t' ht' h => ?_)
    have hlt' := hgrouped'.height_lt hbelow.2 t' ht'
    exact h.denotes
  | object hsame htag hops hops' hts =>
    unfold Likeness.Denotes
    rw [toNode_dict, toNode_dict, dictNode, dictNode, ← hsame.tag?_eq, htag]
    refine Likeness.objectNode rfl ?_
    rw [hops, hops']
    refine .ok (forall₂_imp_of_mem hts fun p _ p' hp' h => ?_)
    refine h.properties fun t t' ht hlt => ?_
    have hlt' := height_lt_of_operandTrees hops' hp'
    exact ht.denotes
  | program hsame htag hitems hitems' hts =>
    unfold Likeness.Denotes
    rw [toNode_dict, toNode_dict, dictNode, dictNode, ← hsame.tag?_eq, htag]
    refine Likeness.programNode rfl ?_
    rw [hitems, hitems']
    refine .ok ⟨?_, hts.strictTrees_eq (fun _ _ h => h.isAside_eq) rfl⟩
    refine forall₂_imp_of_mem (hts.bodyTrees fun _ _ h => h.isAside_eq) fun t _ t' ht' h => ?_
    have hlt := height_lt_of_statementTrees hitems' (List.mem_of_mem_filter ht')
    exact h.denotes
termination_by t'.height
decreasing_by
  all_goals
    simp only [height]
    omega

/-- A tree that denotes a node denotes it with other noise too, but perhaps in other places. A
program is strict just if a directive that asks for it stands before its first statement. -/
theorem noise_is_not_read :
    (∀ {t t' : Tree} {n : Node}, Noise t t' → toNode t = .ok n →
      ∃ n', toNode t' = .ok n' ∧ n'.unplaced = n.unplaced) ∧
    ∀ {self : Value} {entries : List (Value × Tree)} {ts : List Tree} {body : List Node}
      {strict : Bool} {loc : Option Location}, tag? entries = some "program" →
      statementTrees entries = .ok ts →
      toNode (.dict self entries) = .ok (.program body strict loc) →
      (strict = true ↔ ∃ before d after, ts = before ++ d :: after ∧ d.isStrictDirective = true ∧
        ∀ t ∈ before, t.isAside = true) := by
  constructor
  · intro t t' n hnoise hn
    have hdenotes := hnoise.denotes
    unfold Likeness.Denotes at hdenotes
    rw [hn] at hdenotes
    generalize hn' : toNode t' = read' at hdenotes
    cases hdenotes with
    | @ok _ n' hsame => exact ⟨n', rfl, hsame.symm⟩
  · intro self entries ts body strict loc htag hitems hn
    rw [toNode_program htag hitems] at hn
    cases hbody : (bodyTrees ts).mapM toNode with
    | error e =>
      rw [hbody] at hn
      cases hn
    | ok ns =>
      rw [hbody] at hn
      cases hn
      exact strictTrees_iff

/-- An identifier. -/
def named (s : String) : Tree := tagged "identifier" [("text", .leaf (.str s))]

/-- The program `f(x, y)`. -/
def plainCall : Tree :=
  tagged "program" [("children", .list .null [tagged "call" [("children", .list .null
    [named "f", tagged "args" [("children", .list .null [named "x", named "y"])]])]])]

/-- The program `f(x, (y))` with a comment before it, a directive after it, and the callee in its
place. -/
def noisyCall : Tree :=
  tagged "program" [("children", .list .null
    [tagged "comment" [],
      tagged "group" [("children", .list .null [tagged "call" [("children", .list .null
        [tagged "identifier"
          [("text", .leaf (.str "f")), ("line", .leaf (.int 1)), ("col", .leaf (.int 1))],
          named "x", tagged "args" [("children", .list .null
            [tagged "expr" [("children", .list .null [named "y"])]])]])]])],
      tagged "directive" [("text", .leaf (.str "use strict"))]])]

/-- The noisy call is the plain one with noise. -/
theorem noise_noisyCall : Noise plainCall noisyCall := by
  have hcallee : Noise (named "f") (tagged "identifier"
      [("text", .leaf (.str "f")), ("line", .leaf (.int 1)), ("col", .leaf (.int 1))]) :=
    .moved ⟨rfl, rfl, rfl⟩ rfl
  have hlast : Noise (named "y") (tagged "expr" [("children", .list .null [named "y"])]) :=
    .wrapped (.inl rfl) rfl rfl (.same _)
  refine .program ⟨rfl, rfl, rfl⟩ rfl rfl rfl (.comment rfl (.statement rfl ?_ (.late rfl .nil)))
  refine .wrapped (.inr rfl) rfl rfl ?_
  refine .call ⟨rfl, rfl, rfl⟩ rfl rfl rfl hcallee (.group rfl rfl .nil)
    (.bare (by decide) (.group rfl rfl .nil)) ?_
  exact .cons (.same _) (.cons hlast .nil)

/-- The plain call denotes a program that calls `f` with `x` and `y`. -/
theorem toNode_plainCall :
    toNode plainCall = .ok (.program [.call (.identifier (.str "f") none)
      [.identifier (.str "x") none, .identifier (.str "y") none] none] false none) := by
  have hnamed : ∀ s, toNode (named s) = .ok (.identifier (.str s) none) := toNode_tagged_identifier
  unfold plainCall tagged
  refine (toNode_program rfl rfl).trans ?_
  show (List.mapM toNode [_] >>= _) = _
  rw [List.mapM_cons, List.mapM_nil, toNode_dict]
  show ((do
    let callee ← toNode (named "f")
    return Node.call callee (← [named "x", named "y"].mapM toNode) none) >>= _) >>= _ = _
  rw [List.mapM_cons, List.mapM_cons, List.mapM_nil, hnamed, hnamed, hnamed]
  rfl

/-- The noisy call denotes what the plain one does. A program that only asks for strictness has the
directive before its first statement. -/
theorem noisy_call_is_read_as_plain :
    (∃ n, toNode noisyCall = .ok n ∧ n.unplaced = .program [.call (.identifier (.str "f") none)
      [.identifier (.str "x") none, .identifier (.str "y") none] none] false none) ∧
    ∃ before d after, [tagged "directive" [("text", .leaf (.str "use strict"))]] = before ++ d :: after ∧
      d.isStrictDirective = true ∧ ∀ t ∈ before, t.isAside = true := by
  constructor
  · exact noise_is_not_read.1 noise_noisyCall toNode_plainCall
  · have hprogram : toNode (tagged "program" [("children",
        .list .null [tagged "directive" [("text", .leaf (.str "use strict"))]])]) =
        .ok (.program [] true none) := by
      unfold tagged
      exact (toNode_program rfl rfl).trans rfl
    exact (noise_is_not_read.2 rfl rfl hprogram).1 rfl

end Tree

end ChainScript
