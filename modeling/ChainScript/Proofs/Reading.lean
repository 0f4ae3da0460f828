import ChainScript.Syntax.Tree

/-!
# Reading trees level by level

`Tree.toNode` carries with every operand the bound that makes the reading end. Here the bounds are
taken off: `Tree.dictNode` is what a dictionary denotes by what the trees in it denote, and
`Tree.toNode_dict` says that trees are read so. Proofs about reading go by this equation and by the
three of the other trees.

The tags of most dictionaries make one of a few things of their operands: the node of the only one,
a node of two, the nodes of a list. There is one definition for each.
-/

namespace ChainScript.Tree

/-- The tree itself, without its bound. -/
def Below.tree {n : Nat} (x : Below n) : Tree := x.1

/-- The trees below a list are its items. -/
theorem map_tree_belowAll (items : List Tree) : (belowAll items).map Below.tree = items :=
  List.map_map.trans (List.attach_map_subtype_val items)

/-- The trees below a dictionary are the values of its entries. -/
theorem map_tree_belowEntries (entries : List (Value × Tree)) :
    (belowEntries entries).map Below.tree = entries.map Prod.snd :=
  List.map_map.trans (List.attach_map_val (f := Prod.snd))

/-- Trees that are known to be low are the same trees below a greater height. -/
theorem map_tree_weaken {m n : Nat} (h : m ≤ n) (xs : List (Below m)) :
    (xs.map (Below.weaken h)).map Below.tree = xs.map Below.tree :=
  List.map_map

/-- A text has its characters for items. -/
theorem map_tree_ofText (n : Nat) (s : String) :
    (ofText n s).map Below.tree = s.toList.map fun c => .leaf (.str (String.singleton c)) :=
  List.map_map

/-- A step that looks at the trees alone does not see their bounds. -/
theorem mapM_tree {α : Type} {n : Nat} (f : Tree → Except TreeFault α) (xs : List (Below n)) :
    xs.mapM (fun x => f x.1) = (xs.map Below.tree).mapM f :=
  List.mapM_map.symm

/-! ## Operands -/

/-- The operands of a node without their bounds. -/
def operandTrees (entries : List (Value × Tree)) : Except TreeFault (List Tree) :=
  match field? entries "children" with
  | none => .ok []
  | some (.dict _ named) => .ok (named.map Prod.snd)
  | some (.list _ items) | some (.iterable _ items) => .ok items
  | some (.leaf v) =>
    if isEmptyLeaf v then .ok []
    else match v with
      | .str s => .ok (s.toList.map fun c => .leaf (.str (String.singleton c)))
      | _ => .error .notIterable

/-- The statements of a program without their bounds. -/
def statementTrees (entries : List (Value × Tree)) : Except TreeFault (List Tree) :=
  match field? entries "children" with
  | none => .ok []
  | some (.dict _ named) => .ok (named.map fun e => .leaf e.1)
  | some (.list _ items) | some (.iterable _ items) => .ok items
  | some (.leaf (.str s)) => .ok (s.toList.map fun c => .leaf (.str (String.singleton c)))
  | some (.leaf _) => .error .notIterable

/-- The operands below a dictionary are its operands. -/
theorem map_operands (entries : List (Value × Tree)) :
    (operands entries).map (List.map Below.tree) = operandTrees entries := by
  unfold operands operandTrees
  split <;> rename_i hf <;> simp only [hf]
  · rfl
  · exact congrArg Except.ok ((map_tree_weaken _ _).trans (map_tree_belowEntries _))
  · exact congrArg Except.ok ((map_tree_weaken _ _).trans (map_tree_belowAll _))
  · exact congrArg Except.ok ((map_tree_weaken _ _).trans (map_tree_belowAll _))
  · split
    · rfl
    · split
      · exact congrArg Except.ok (map_tree_ofText _ _)
      · rename_i v _ hfield _ _ hnone
        cases v with
        | str s => exact (hnone s hfield rfl HEq.rfl).elim
        | _ => rfl

/-- The statements below a dictionary are its statements. -/
theorem map_statements (entries : List (Value × Tree)) :
    (statements entries).map (List.map Below.tree) = statementTrees entries := by
  unfold statements statementTrees
  split <;> rename_i hf <;> simp only [hf]
  · rfl
  · exact congrArg Except.ok List.map_map
  · exact congrArg Except.ok ((map_tree_weaken _ _).trans (map_tree_belowAll _))
  · exact congrArg Except.ok ((map_tree_weaken _ _).trans (map_tree_belowAll _))
  · exact congrArg Except.ok (map_tree_ofText _ _)
  · rfl

/-- Operands can only fail because the children cannot be iterated. -/
theorem operandTrees_error {entries : List (Value × Tree)} {e : TreeFault}
    (h : operandTrees entries = .error e) : e = .notIterable := by
  unfold operandTrees at h
  repeat' split at h
  all_goals cases h
  rfl

/-- So can statements. -/
theorem statementTrees_error {entries : List (Value × Tree)} {e : TreeFault}
    (h : statementTrees entries = .error e) : e = .notIterable := by
  unfold statementTrees at h
  split at h
  all_goals cases h
  rfl

/-- Operands are not as high as the dictionary. -/
theorem height_lt_of_operandTrees {entries : List (Value × Tree)} {ts : List Tree}
    (hts : operandTrees entries = .ok ts) {t : Tree} (ht : t ∈ ts) :
    t.height < heightEntries entries + 1 := by
  rw [← map_operands] at hts
  cases hops : operands entries with
  | error e => rw [hops] at hts; cases hts
  | ok xs =>
    rw [hops] at hts
    cases hts
    obtain ⟨x, -, rfl⟩ := List.mem_map.mp ht
    exact x.2

/-- Statements are not as high as the dictionary. -/
theorem height_lt_of_statementTrees {entries : List (Value × Tree)} {ts : List Tree}
    (hts : statementTrees entries = .ok ts) {t : Tree} (ht : t ∈ ts) :
    t.height < heightEntries entries + 1 := by
  rw [← map_statements] at hts
  cases hitems : statements entries with
  | error e => rw [hitems] at hts; cases hts
  | ok xs =>
    rw [hitems] at hts
    cases hts
    obtain ⟨x, -, rfl⟩ := List.mem_map.mp ht
    exact x.2

/-- The only tree of a list. -/
def sole (fault : Nat → TreeFault) : List Tree → Except TreeFault Tree
  | [t] => .ok t
  | ts => .error (fault ts.length)

/-- The two trees of a list. -/
def both (tag : String) : List Tree → Except TreeFault (Tree × Tree)
  | [a, b] => .ok (a, b)
  | ts => .error (.notTwoOperands tag ts.length)

/-- What an operand of a call gives to the arguments: an `args` group its own operands, and any
other tree itself. -/
def argumentsOf : Tree → Except TreeFault (List Tree)
  | .dict self entries =>
    if tag? entries = some "args" then operandTrees entries else .ok [.dict self entries]
  | t => .ok [t]

/-- The arguments of a call without their bounds. -/
def argumentTrees : List Tree → Except TreeFault (List Tree)
  | [] => .ok []
  | t :: ts => do
    let here ← argumentsOf t
    return here ++ (← argumentTrees ts)

/-- The name and the value of a property without their bounds. -/
def propertyTrees : Tree → Except TreeFault (Tree × Tree)
  | .dict self entries =>
    if tag? entries = some "property" then do both "property" (← operandTrees entries)
    else .error (.notProperty self)
  | t => .error (.notProperty t.toValue)

/-- Whether a tree is no statement where statements are expected. -/
def isAside (t : Tree) : Bool := t.isDirective || t.isComment

/-- The trees that become the statements of a program, without their bounds. -/
def bodyTrees (ts : List Tree) : List Tree := ts.filter fun t => !t.isAside

/-- Whether a directive before the first statement asks for strictness. -/
def strictTrees (ts : List Tree) : Bool := (ts.takeWhile isAside).any isStrictDirective

/-- A dictionary with a tag. -/
def tagged (tag : String) (fields : List (String × Tree)) : Tree :=
  .dict .null ((.str "tag", .leaf (.str tag)) :: fields.map fun p => (.str p.1, p.2))

/-! ## Nodes -/

section

variable (read : Tree → Except TreeFault Node)

/-- The node of the only operand. -/
def soleNode (fault : Nat → TreeFault) (entries : List (Value × Tree)) : Except TreeFault Node := do
  read (← sole fault (← operandTrees entries))

/-- The node that is made of the nodes of two operands. -/
def binaryNode (tag : String) (make : Node → Node → Node) (entries : List (Value × Tree)) :
    Except TreeFault Node := do
  let (a, b) ← both tag (← operandTrees entries)
  return make (← read a) (← read b)

/-- The member of the node of the first operand that the second operand names. -/
def memberNode (entries : List (Value × Tree)) : Except TreeFault Node := do
  let (obj, name) ← both "member" (← operandTrees entries)
  return .member (← read obj) (← nameValue name) (location? entries)

/-- The member of the parent of `this` that the first operand names, or else the tree itself. -/
def superNode (self : Value) (entries : List (Value × Tree)) : Except TreeFault Node := do
  let name := (← operandTrees entries).headD (.dict self entries)
  return .superMember (← nameValue name) (location? entries)

/-- The call of the node of the first operand with the nodes of the arguments. -/
def callNode (entries : List (Value × Tree)) : Except TreeFault Node := do
  match ← operandTrees entries with
  | [] => throw .noCallee
  | callee :: rest =>
    let args ← argumentTrees rest
    return .call (← read callee) (← args.mapM read) (location? entries)

/-- The name and the node of a property. -/
def propertyNode (t : Tree) : Except TreeFault (Value × Node) := do
  let (name, value) ← propertyTrees t
  return (← nameValue name, ← read value)

/-- The object literal of the properties. -/
def objectNode (entries : List (Value × Tree)) : Except TreeFault Node :=
  return .objectLiteral (← (← operandTrees entries).mapM (propertyNode read)) (location? entries)

/-- The program of the nodes of the statements. -/
def programNode (entries : List (Value × Tree)) : Except TreeFault Node := do
  let items ← statementTrees entries
  return .program (← (bodyTrees items).mapM read) (strictTrees items) (location? entries)

/-- What a dictionary denotes where the trees in it denote what they are read as. -/
def dictNode (self : Value) (entries : List (Value × Tree)) : Except TreeFault Node :=
  let loc := location? entries
  match tag? entries with
  | some "program" => programNode read entries
  | some "expr" => soleNode read (.notOneChild "expr") entries
  | some "group" => soleNode read (.notOneChild "group") entries
  | some "number" => return .literal (← number self entries) loc
  | some "string" => return .literal (← text entries) loc
  | some "boolean" | some "null" => return .literal (fieldValue entries "value") loc
  | some "undefined" => return .literal .undefined loc
  | some "identifier" | some "name" => return .identifier (← text entries) loc
  | some "member" => memberNode read entries
  | some "index" => binaryNode read "index" (.index · · loc) entries
  | some "chain" => binaryNode read "chain" (.chain · · loc) entries
  | some "super-member" => superNode self entries
  | some "assign" => binaryNode read "assign" (.assign · · loc) entries
  | some "delete" => return .delete (← soleNode read (fun _ => .notOneOperand) entries) loc
  | some "call" => callNode read entries
  | some "object" => objectNode read entries
  | _ => throw (.unknownTag (fieldValue entries "tag"))

end

/-- A leaf denotes a literal. -/
theorem toNode_leaf (v : Value) : toNode (.leaf v) = .ok (.literal v none) := by rw [toNode]

/-- So does what else can be iterated. -/
theorem toNode_iterable (self : Value) (items : List Tree) :
    toNode (.iterable self items) = .ok (.literal self none) := by rw [toNode]

/-- A list denotes what its items denote, in the same order. -/
theorem toNode_list (self : Value) (items : List Tree) :
    toNode (.list self items) = (do return .list (← items.mapM toNode)) := by
  rw [toNode, mapM_tree, map_tree_belowAll]

/-- The name of a number is the value that it carries, if it carries one. -/
theorem nameValue_number {self : Value} {entries : List (Value × Tree)}
    (htag : tag? entries = some "number") :
    nameValue (.dict self entries) =
      match field? entries "value" with
      | some t => .ok t.toValue
      | none => textName self entries := by
  simp only [nameValue, htag]
  cases field? entries "value" <;> rfl

/-- The name of any other dictionary is its text. -/
theorem nameValue_other {self : Value} {entries : List (Value × Tree)}
    (htag : tag? entries ≠ some "number") :
    nameValue (.dict self entries) = textName self entries := by
  simp only [nameValue]
  split
  next h _ => exact (htag h).elim
  next => rfl

/-! ## The equation -/

section

variable {α : Type} {entries : List (Value × Tree)}

/-- What goes on from operands and looks at their trees alone goes on so from the trees. -/
theorem operands_bind {f : List (Below (heightEntries entries + 1)) → Except TreeFault α}
    {g : List Tree → Except TreeFault α} (hfg : ∀ xs, f xs = g (xs.map Below.tree)) :
    operands entries >>= f = operandTrees entries >>= g := by
  rw [← map_operands]
  cases operands entries with
  | error e => rfl
  | ok xs => exact hfg xs

/-- What goes on from statements and looks at their trees alone goes on so from the trees. -/
theorem statements_bind {f : List (Below (heightEntries entries + 1)) → Except TreeFault α}
    {g : List Tree → Except TreeFault α} (hfg : ∀ xs, f xs = g (xs.map Below.tree)) :
    statements entries >>= f = statementTrees entries >>= g := by
  rw [← map_statements]
  cases statements entries with
  | error e => rfl
  | ok xs => exact hfg xs

/-- What goes on from two operands does so from the two trees. -/
theorem pair_bind {tag : String} {f : Below _ × Below _ → Except TreeFault α}
    {g : Tree × Tree → Except TreeFault α} (hfg : ∀ a b, f (a, b) = g (a.1, b.1)) :
    pair tag entries >>= f = operandTrees entries >>= fun ts => both tag ts >>= g := by
  rw [← map_operands, pair]
  cases operands entries with
  | error e => rfl
  | ok xs =>
    match xs with
    | [] => rfl
    | [_] => rfl
    | [a, b] => exact hfg a b
    | _ :: _ :: _ :: rest => simp [both, Except.map, bind, Except.bind]

end

/-- What goes on from arguments does so from the trees of the arguments. -/
theorem flattenArguments_bind {n : Nat} {α : Type} {xs : List (Below n)}
    {f : List (Below n) → Except TreeFault α} {g : List Tree → Except TreeFault α}
    (hfg : ∀ ys, f ys = g (ys.map Below.tree)) :
    flattenArguments xs >>= f = argumentTrees (xs.map Below.tree) >>= g := by
  induction xs generalizing f g with
  | nil => exact hfg []
  | cons x rest ih =>
    obtain ⟨t, ht⟩ := x
    -- What the first operand gives stands before what the others give.
    have hrest : ∀ here : List (Below n),
        (flattenArguments rest >>= fun others => pure (here ++ others)) >>= f
          = (argumentTrees (rest.map Below.tree) >>= fun others =>
              pure (here.map Below.tree ++ others)) >>= g := by
      intro here
      rw [bind_assoc, bind_assoc]
      refine ih fun others => ?_
      rw [pure_bind, pure_bind, hfg, List.map_append]
    show _ = (argumentsOf t >>= fun here => argumentTrees (rest.map Below.tree) >>= fun others =>
      pure (here ++ others)) >>= g
    unfold flattenArguments
    cases t with
    | dict self entries =>
      simp only [argumentsOf]
      split
      · rw [bind_assoc, bind_assoc]
        refine operands_bind fun ys => ?_
        rw [pure_bind]
        have hle : heightEntries entries + 1 ≤ n := Nat.le_of_lt ht
        have hys := hrest (ys.map (Below.weaken hle))
        rwa [map_tree_weaken] at hys
      · exact hrest [⟨.dict self entries, ht⟩]
    | leaf v => exact hrest [⟨.leaf v, ht⟩]
    | list self items => exact hrest [⟨.list self items, ht⟩]
    | iterable self items => exact hrest [⟨.iterable self items, ht⟩]

/-- What goes on from the parts of a property does so from their trees. -/
theorem propertyParts_bind {n : Nat} {α : Type} {x : Below n}
    {f : Below n × Below n → Except TreeFault α} {g : Tree × Tree → Except TreeFault α}
    (hfg : ∀ a b, f (a, b) = g (a.1, b.1)) :
    propertyParts x >>= f = propertyTrees x.tree >>= g := by
  obtain ⟨t, ht⟩ := x
  unfold propertyParts
  cases t with
  | dict self entries =>
    simp only [propertyTrees, Below.tree]
    split
    · rw [bind_assoc, bind_assoc]
      exact pair_bind fun a b => hfg _ _
    · rfl
  | _ => rfl

/-- The trees that are left without noise are those of the body. -/
theorem map_tree_withoutNoise {n : Nat} (xs : List (Below n)) :
    (withoutNoise xs).map Below.tree = bodyTrees (xs.map Below.tree) := by
  rw [bodyTrees, List.filter_map]
  rfl

/-- Whether a body asks for strictness is told by its trees. -/
theorem strictTrees_tree {n : Nat} (xs : List (Below n)) :
    strictTrees (xs.map Below.tree) = asksStrict xs := by
  rw [strictTrees, List.takeWhile_map, List.any_map]
  rfl

/-- A dictionary is read by what the trees in it denote. -/
theorem toNode_dict (self : Value) (entries : List (Value × Tree)) :
    toNode (.dict self entries) = dictNode toNode self entries := by
  rw [toNode, dictNode]
  -- The matches of both sides are split together or one after the other.
  split
  case h_19 => simp [*]
  all_goals
    try simp only [*]
  case h_1 =>
    refine statements_bind fun xs => ?_
    rw [mapM_tree, map_tree_withoutNoise, strictTrees_tree]
  case h_2 | h_3 =>
    refine operands_bind fun xs => ?_
    rcases xs with _ | ⟨x, _ | _⟩
    · rfl
    · rfl
    · simp only [List.map_cons, sole, List.length_cons, List.length_map]
      rfl
  case h_11 | h_12 | h_13 | h_15 => exact pair_bind fun a b => rfl
  case h_14 =>
    refine operands_bind fun xs => ?_
    cases xs <;> rfl
  case h_16 =>
    rw [soleNode, bind_assoc]
    refine operands_bind fun xs => ?_
    rcases xs with _ | ⟨x, _ | _⟩ <;> rfl
  case h_17 =>
    refine operands_bind fun xs => ?_
    cases xs with
    | nil => rfl
    | cons callee rest => exact flattenArguments_bind fun args => by rw [mapM_tree]; rfl
  case h_18 =>
    refine operands_bind fun xs => ?_
    have hproperties : (fun x : Below (heightEntries entries + 1) => propertyParts x >>= fun p =>
        nameValue p.1.1 >>= fun name => toNode p.2.1 >>= fun n => pure (name, n))
          = propertyNode toNode ∘ Below.tree :=
      funext fun x => propertyParts_bind fun a b => rfl
    rw [List.mapM_map, ← hproperties]

/-- A program is made of the nodes of its statements. -/
theorem toNode_program {self : Value} {entries : List (Value × Tree)} {items : List Tree}
    (htag : tag? entries = some "program") (hitems : statementTrees entries = .ok items) :
    toNode (.dict self entries) = (do
      return .program (← (bodyTrees items).mapM toNode) (strictTrees items) (location? entries)) := by
  rw [toNode_dict, dictNode, htag]
  show programNode toNode entries = _
  rw [programNode, hitems]
  rfl

/-- An identifier is the text that it has. -/
theorem toNode_tagged_identifier (s : String) :
    toNode (tagged "identifier" [("text", .leaf (.str s))]) = .ok (.identifier (.str s) none) := by
  unfold tagged
  rw [toNode_dict]
  rfl

end ChainScript.Tree
