import ChainScript.Proofs.HeapCopy

/-!
# Printing copies

Printed forms show what objects are and hold, and never where they stand. So a value on a heap and
its copy have the same inspected form and the same text, nodes and faults are shown alike, and a
rendered form that is a value, as the name of an identifier is, is the renamed one.
-/

namespace ChainScript

variable {ρ : Renaming}

/-- Values that are texts stay the same texts. -/
@[simp] theorem allTexts_rename (vs : List Value) : allTexts (vs.map (rename ρ)) = allTexts vs := by
  induction vs with
  | nil => rfl
  | cons v vs ih => cases v <;> simp [allTexts, ih]

/-- Steps that come to renamed results come to the renamed list of them. -/
theorem mapM_rename {α β : Type} [Renamed α] [Renamed β] {f f' : α → Printed β}
    (hf : ∀ a, f' (rename ρ a) = rename ρ <$> f a) (as : List α) :
    (as.map (rename ρ)).mapM f' = List.map (rename ρ) <$> as.mapM f := by
  induction as with
  | nil => simp
  | cons a as ih => simp [hf, ih]

/-- Steps that come to texts come to the same texts. -/
theorem mapM_texts {α : Type} [Renamed α] {f f' : α → Printed String}
    (hf : ∀ a, f' (rename ρ a) = f a) (as : List α) : (as.map (rename ρ)).mapM f' = as.mapM f := by
  induction as with
  | nil => simp
  | cons a as ih => simp [hf, ih]

/-! ## Nodes -/

namespace ValuePrinter

/-- Two printers show values and their copies alike. -/
structure Copy (ρ : Renaming) (p p' : ValuePrinter) : Prop where
  inspect : ∀ v, p'.inspect (rename ρ v) = p.inspect v
  render : ∀ level v, p'.render level (rename ρ v) = rename ρ <$> p.render level v

namespace Copy

variable {p p' : ValuePrinter}

/-- Printers that are copies put a value and its copy into the same words. -/
theorem text (hp : p.Copy ρ p') (v : Value) : p'.text (rename ρ v) = p.text v := by
  cases v with
  | str s => rfl
  | object id => exact hp.inspect (.object id)
  | _ => exact hp.inspect _

/-- They show the same name of a slot. -/
theorem slotName (hp : p.Copy ρ p') (name : Value) :
    p'.slotName (rename ρ name) = p.slotName name := by
  unfold ValuePrinter.slotName
  rw [hp.render]
  simp only [bind_map_left, hp.text]
  cases name <;> rfl

/-- They show an access to a slot alike. -/
theorem slotAccess (hp : p.Copy ρ p') (key : Value) :
    p'.slotAccess (rename ρ key) = p.slotAccess key := by
  have hrender := hp.render 0 key
  cases key with
  | str s => rfl
  | _ =>
    simp only [rename_null, rename_undefined, rename_boolValue, rename_int, rename_float, rename_type,
      rename_builtin, rename_object] at hrender ⊢
    simp only [ValuePrinter.slotAccess, hrender, bind_map_left, hp.text]

mutual

/-- They show a node and its copy alike. -/
theorem inspectNode (hp : p.Copy ρ p') :
    ∀ n : Node, p'.inspectNode (rename ρ n) = p.inspectNode n
  | .literal v _ => by
    simp only [Node.rename_literal, ValuePrinter.inspectNode, hp.inspect]
  | .identifier name _ => by
    simp only [Node.rename_identifier, ValuePrinter.inspectNode, hp.inspect]
  | .member obj name _ => by
    simp only [Node.rename_member, ValuePrinter.inspectNode, hp.inspect, inspectNode hp obj]
  | .index obj key _ => by
    simp only [Node.rename_index, ValuePrinter.inspectNode, inspectNode hp obj, inspectNode hp key]
  | .chain obj resolver _ => by
    simp only [Node.rename_chain, ValuePrinter.inspectNode, inspectNode hp obj,
      inspectNode hp resolver]
  | .superMember name _ => by
    simp only [Node.rename_superMember, ValuePrinter.inspectNode, hp.inspect]
  | .assign target v _ => by
    simp only [Node.rename_assign, ValuePrinter.inspectNode, inspectNode hp target,
      inspectNode hp v]
  | .delete target _ => by
    simp only [Node.rename_delete, ValuePrinter.inspectNode, inspectNode hp target]
  | .call callee args _ => by
    simp only [Node.rename_call, ValuePrinter.inspectNode, inspectNode hp callee,
      inspectNodes hp args]
  | .objectLiteral entries _ => by
    simp only [Node.rename_objectLiteral, ValuePrinter.inspectNode, inspectEntries hp entries]
  | .program body _ _ => by
    simp only [Node.rename_program, ValuePrinter.inspectNode, inspectNodes hp body]
  | .other _ _ => by
    simp only [Node.rename_other, ValuePrinter.inspectNode]
  | .value v => by
    simp only [Node.rename_value, ValuePrinter.inspectNode, hp.inspect]
  | .list items => by
    simp only [Node.rename_listNode, ValuePrinter.inspectNode, inspectNodes hp items]

/-- They show nodes in a row alike. -/
theorem inspectNodes (hp : p.Copy ρ p') :
    ∀ ns : List Node, p'.inspectNodes (ns.map (rename ρ)) = p.inspectNodes ns
  | [] => rfl
  | n :: ns => by
    simp only [List.map_cons, ValuePrinter.inspectNodes, inspectNode hp n, inspectNodes hp ns]

/-- They show the entries of an object literal alike. -/
theorem inspectEntries (hp : p.Copy ρ p') :
    ∀ entries : List (Value × Node),
      p'.inspectEntries (entries.map (rename ρ)) = p.inspectEntries entries
  | [] => rfl
  | (name, n) :: rest => by
    simp only [List.map_cons, rename_prod, ValuePrinter.inspectEntries, hp.inspect,
      inspectNode hp n, inspectEntries hp rest]

end

mutual

/-- They print a node to what they print its copy to, renamed. -/
theorem renderNode (hp : p.Copy ρ p') (width level : Int) :
    ∀ n : Node, p'.renderNode width level (rename ρ n) = rename ρ <$> p.renderNode width level n
  | .literal v _ => by
    simp only [Node.rename_literal, ValuePrinter.renderNode, hp.render]
  | .identifier name _ => by
    simp only [Node.rename_identifier, ValuePrinter.renderNode, map_pure]
  | .member obj name _ => by
    simp only [Node.rename_member, ValuePrinter.renderNode, renderNode hp width level obj, hp.text,
      bind_map_left, map_bind, map_pure, rename_str]
  | .index obj key _ => by
    simp only [Node.rename_index, ValuePrinter.renderNode, renderNode hp width level obj,
      renderNode hp width level key, hp.text, bind_map_left, map_bind, map_pure, rename_str]
  | .chain obj resolver _ => by
    simp only [Node.rename_chain, ValuePrinter.renderNode, renderNode hp width level obj,
      renderNode hp width level resolver, hp.text, bind_map_left, map_bind, map_pure, rename_str]
  | .superMember name _ => by
    simp only [Node.rename_superMember, ValuePrinter.renderNode, hp.text, map_bind, map_pure,
      rename_str]
  | .assign target v _ => by
    simp only [Node.rename_assign, ValuePrinter.renderNode, renderNode hp width level target,
      renderNode hp width level v, hp.text, bind_map_left, map_bind, map_pure, rename_str]
  | .delete target _ => by
    simp only [Node.rename_delete, ValuePrinter.renderNode, renderNode hp width level target,
      hp.text, bind_map_left, map_bind, map_pure, rename_str]
  | .call callee args _ => by
    simp only [Node.rename_call, ValuePrinter.renderNode, renderNode hp width level callee,
      renderNodes hp width level args, hp.text, allTexts_rename, bind_map_left, map_bind, map_pure,
      rename_str]
  | .objectLiteral entries _ => by
    simp only [Node.rename_objectLiteral, ValuePrinter.renderNode,
      renderEntries hp width level entries, map_bind, map_pure, rename_str]
  | .program body _ _ => by
    simp only [Node.rename_program, ValuePrinter.renderNode, renderLines hp width level body,
      map_bind, map_pure, rename_str]
  | .other _ _ => by
    simp only [Node.rename_other, ValuePrinter.renderNode, map_pure, rename_str]
  | .value v => by
    simp only [Node.rename_value, ValuePrinter.renderNode, hp.render]
  | .list items => by
    simp only [Node.rename_listNode, ValuePrinter.renderNode, renderNodes hp width level items,
      allTexts_rename, bind_map_left, map_bind, map_pure, rename_str]

/-- They print nodes in a row so. -/
theorem renderNodes (hp : p.Copy ρ p') (width level : Int) :
    ∀ ns : List Node, p'.renderNodes width level (ns.map (rename ρ))
      = List.map (rename ρ) <$> p.renderNodes width level ns
  | [] => rfl
  | n :: ns => by
    simp only [List.map_cons, ValuePrinter.renderNodes, renderNode hp width level n,
      renderNodes hp width level ns, bind_map_left, map_bind, map_pure]

/-- They print the entries of an object literal alike. -/
theorem renderEntries (hp : p.Copy ρ p') (width level : Int) :
    ∀ entries : List (Value × Node), p'.renderEntries width level (entries.map (rename ρ))
      = p.renderEntries width level entries
  | [] => rfl
  | (name, n) :: rest => by
    simp only [List.map_cons, rename_prod, ValuePrinter.renderEntries, hp.slotName, hp.text,
      renderNode hp width level n, renderEntries hp width level rest, bind_map_left]

/-- They print statements to the same lines. -/
theorem renderLines (hp : p.Copy ρ p') (width level : Int) :
    ∀ ns : List Node, p'.renderLines width level (ns.map (rename ρ)) = p.renderLines width level ns
  | [] => rfl
  | n :: ns => by
    simp only [List.map_cons, ValuePrinter.renderLines, renderNode hp width level n,
      renderLines hp width level ns, bind_map_left]
    congr 1
    funext v
    cases v <;> rfl

end

end Copy

end ValuePrinter

/-! ## Values -/

namespace Heap.Copy

variable {h h' : Heap}

/-- A value that is cut off inside itself is cut off in its copy. -/
theorem contains_around (around : List ObjectId) (id : ObjectId) :
    (around.map ρ).contains (ρ id) = around.contains id := by
  induction around with
  | nil => rfl
  | cons j around ih => simp

/-- The name that a copy shows is the renamed one. -/
theorem shownName? (hh : h.Copy ρ h') (v : Value) :
    h'.shownName? (rename ρ v) = (h.shownName? v).map (rename ρ) := by
  have hname := Table.find?_rename ρ (h.attributes v) "__name__"
  rw [rename_string, ← hh.attributes] at hname
  cases v with
  | type c | builtin f => rfl
  | object id =>
    have hc := hh.object? id
    simp only [rename_object] at hname
    simp only [Heap.shownName?, rename_object, hname, Heap.objectOf?]
    cases (h.attributes (.object id)).find? "__name__" with
    | some name => rfl
    | none =>
      revert hc
      generalize h.object? id = o, h'.object? (ρ id) = o'
      rintro (⟨hc⟩ | _)
      · cases hc with
        | method m => simp
        | _ => rfl
      · rfl
  | _ =>
    simp only [rename_null, rename_undefined, rename_boolValue, rename_int, rename_float,
      rename_str] at hname
    simp only [Heap.shownName?, rename_null, rename_undefined, rename_boolValue, rename_int,
      rename_float, rename_str, hname]
    cases Table.find? (h.attributes _) "__name__" <;> rfl

/-- How many things a value holds does not depend on where they stand. -/
theorem lengthWithin (hh : h.Copy ρ h') (depth : Nat) (v : Value) :
    h'.lengthWithin depth (rename ρ v) = h.lengthWithin depth v := by
  induction depth generalizing v with
  | zero => rfl
  | succ depth ih =>
    cases v with
    | object id =>
      have hc := hh.object? id
      simp only [rename_object, Heap.lengthWithin]
      revert hc
      generalize h.object? id = o, h'.object? (ρ id) = o'
      rintro (⟨hc⟩ | _)
      · cases hc with
        | husk data =>
          cases data with
          | none => rfl
          | some data => exact ih data
        | _ => simp
      · rfl
    | _ => rfl

/-- A copy is as long as the original. -/
theorem length (hh : h.Copy ρ h') (v : Value) : h'.length (rename ρ v) = h.length v :=
  hh.lengthWithin printDepth v

/-- What can be called is printed to the renamed form of it. -/
theorem renderCallable (hh : h.Copy ρ h') {p p' : ValuePrinter} (hp : p.Copy ρ p') (v : Value) :
    h'.renderCallable p' (rename ρ v) = rename ρ <$> h.renderCallable p v := by
  unfold Heap.renderCallable
  rw [hh.shownName?]
  cases h.shownName? v with
  | none => simp [hp.inspect]
  | some name =>
    simp only [Option.map_some, hh.isTruthy, hp.text, hp.inspect]
    split <;> simp

/-- A name that is a text is the same text on a copy. -/
theorem named_rename (name : Option Value) (other : Printed String) :
    (match name.map (rename ρ) with
      | some (.str name) => (pure name : Printed String)
      | _ => other)
    = match name with
      | some (.str name) => (pure name : Printed String)
      | _ => other := by
  cases name with
  | none => rfl
  | some name => cases name <;> rfl

/-- The short form of a copy is that of the original. -/
theorem shortForm (hh : h.Copy ρ h') {p p' : ValuePrinter} (hp : p.Copy ρ p') (v : Value) :
    h'.shortForm p' (rename ρ v) = h.shortForm p v := by
  have hc := hh.objectOf? v
  have hnamed := named_rename (ρ := ρ) (h.shownName? v)
  have hrender : (p'.render 0 (rename ρ v) >>= p'.text) = p.render 0 v >>= p.text := by
    rw [hp.render]
    simp only [bind_map_left, hp.text]
  unfold Heap.shortForm
  rw [hh.shownName?, hh.typeName]
  revert hc
  generalize h.objectOf? v = o, h'.objectOf? (rename ρ v) = o'
  intro hc
  cases v with
  | object id =>
    rcases hc with ⟨hc⟩ | _
    · cases hc with
      | record kind slots parent frozen => simp
      | _ => exact hnamed _
    · exact hnamed _
  | type c => exact hnamed (pure ("<" ++ h.typeName (.type c) ++ ">"))
  | builtin f => exact hnamed (pure ("<" ++ h.typeName (.builtin f) ++ ">"))
  | _ => exact hrender

/-- A reference is printed to the renamed form of it. -/
theorem renderReference (hh : h.Copy ρ h') {p p' : ValuePrinter} (hp : p.Copy ρ p')
    (r : Reference) : h'.renderReference p' (rename ρ r) = rename ρ <$> h.renderReference p r := by
  unfold Heap.renderReference
  simp only [name_rename, resolvable_rename, isSuper_rename, base_rename, hh.shortForm hp]
  cases r.name with
  | binding name =>
    simp only [rename_binding, hp.text]
    split <;> simp
  | ordinary key =>
    simp only [rename_ordinary, hp.slotAccess]
    split <;> simp only [map_bind, map_pure, pure_bind, rename_str]
  | virtual resolver =>
    simp only [rename_virtual, hh.shortForm hp, map_bind, map_pure, rename_str]

/-- The printers for the values of a heap, to a depth. -/
abbrev printerWithin (h : Heap) (depth : Nat) (around : List ObjectId) (width : Int) :
    ValuePrinter :=
  ⟨h.inspectWithin depth around, fun level v => h.renderWithin depth around width level v⟩

/-- To a depth, the printers of two heaps show values and their copies alike. -/
def PrintAlike (ρ : Renaming) (h h' : Heap) (depth : Nat) : Prop :=
  ∀ around width, (printerWithin h depth around width).Copy ρ
    (printerWithin h' depth (around.map ρ) width)

variable {depth : Nat}

/-- The parts of a mapping are inspected alike. -/
theorem inspectEntries (hprint : PrintAlike ρ h h' depth) (around : List ObjectId) (slots : Slots) :
    ((rename ρ slots).values.mapM fun slot => do
      let key ← h'.inspectWithin depth (around.map ρ) slot.label
      return key ++ ": " ++ (← h'.inspectWithin depth (around.map ρ) slot.value))
    = slots.values.mapM fun slot => do
      let key ← h.inspectWithin depth around slot.label
      return key ++ ": " ++ (← h.inspectWithin depth around slot.value) := by
  rw [Table.values_rename]
  refine mapM_texts (fun slot => ?_) slots.values
  have hlabel := (hprint around 2).inspect slot.label
  have hvalue := (hprint around 2).inspect slot.value
  dsimp only at hlabel hvalue
  rw [label_rename, value_rename, hlabel, hvalue]

/-- If copies are printed alike at a depth, they are inspected alike at the next one. -/
theorem inspectWithin_succ (hh : h.Copy ρ h') (hprint : PrintAlike ρ h h' depth)
    (around : List ObjectId) (v : Value) :
    h'.inspectWithin (depth + 1) (around.map ρ) (rename ρ v)
      = h.inspectWithin (depth + 1) around v := by
  have hp := hprint around 2
  have hinspect : ∀ v, h'.inspectWithin depth (around.map ρ) (rename ρ v)
      = h.inspectWithin depth around v := hp.inspect
  simp only [inspectWithin]
  cases v with
  | object id =>
    have hdict := inspectEntries hprint (id :: around)
    have hitems : ∀ items : List Value,
        (items.map (rename ρ)).mapM (h'.inspectWithin depth (ρ id :: around.map ρ))
          = items.mapM (h.inspectWithin depth (id :: around)) :=
      fun items => mapM_texts (fun v => (hprint (id :: around) 2).inspect v) items
    rw [List.map_cons] at hdict
    have hc := hh.object? id
    simp only [rename_object]
    revert hc
    generalize h.object? id = o, h'.object? (ρ id) = o'
    rintro (⟨hc⟩ | _)
    · cases hc with
      | list items => simp only [contains_around, hitems]
      | tuple items => simp only [contains_around, hitems]
      | dict entries => simp only [contains_around, hdict]
      | proxy entries => simp only [contains_around, hdict]
      | record kind slots parent frozen =>
        have hrender := hp.render 0 (.object id)
        rw [rename_object] at hrender
        dsimp only at hrender ⊢
        rw [hrender, bind_map_left]
        simp only [hp.text]
      | symbol description =>
        -- The failure to print is reached by steps, for the printers have no end to unfold.
        cases description with
        | none => simp only [Option.map_none, keptText]
        | some d => simp [keptText, hp.text]
      | accessor getter setter =>
        cases getter <;> cases setter <;> simp
      | function name recorded kind hb =>
        cases name with
        | none => simp only [Option.map_none, keptText]
        | some name => simp only [Option.map_some, keptText, hp.text]
      | «instance» kind => rfl
      | store entries => simp
      | weakStore entries => simp
      | bound target receiver =>
        cases target with
        | none => simp only [Option.map_none]
        | some target =>
          cases receiver with
          | none => simp only [Option.map_none, Option.map_some]
          | some receiver =>
            simp only [Option.map_some, hh.shownName?, hh.typeName]
            cases h.shownName? target with
            | none => simp only [Option.map_none, Option.getD_none, ValuePrinter.text]
            | some name => simp only [Option.map_some, Option.getD_some, hp.text]
      | husk data =>
        have hlength := hh.length (.object id)
        rw [rename_object] at hlength
        simp only [hlength]
      | method m => simp only [receiver_rename, name_rename_method, hh.typeName, hinspect]
      | iterator source => rfl
      | awaitable once held hbody => rfl
      | library e => rfl
      | evaluator globals => rfl
      | environment bindings parent => cases parent <;> simp
      | reference r =>
        have hrender := hp.render 0 (.object id)
        rw [rename_object] at hrender
        dsimp only at hrender ⊢
        rw [hrender, bind_map_left]
        simp only [hp.text]
      | node n => exact hp.inspectNode n
    · rfl
  | _ => rfl

/-- The parts of a record or a mapping are rendered alike. -/
theorem renderEntries (hprint : PrintAlike ρ h h' depth) (around : List ObjectId) (width level : Int)
    (key key' : Value → Printed String) (hkey : ∀ v, key' (rename ρ v) = key v) (slots : Slots) :
    ((rename ρ slots).values.mapM fun slot => do
      let key ← key' slot.label
      let value ← h'.renderWithin depth (around.map ρ) width level slot.value
      return key ++ ": " ++ (← (printerWithin h' depth (around.map ρ) width).text value))
    = slots.values.mapM fun slot => do
      let key ← key slot.label
      let value ← h.renderWithin depth around width level slot.value
      return key ++ ": " ++ (← (printerWithin h depth around width).text value) := by
  have hp := hprint around width
  rw [Table.values_rename]
  refine mapM_texts (fun slot => ?_) slots.values
  have hvalue := hp.render level slot.value
  dsimp only at hvalue
  rw [label_rename, value_rename, hkey, hvalue]
  simp only [bind_map_left, hp.text]

/-- If copies are printed alike at a depth, they are rendered alike at the next one. -/
theorem renderWithin_succ (hh : h.Copy ρ h') (hprint : PrintAlike ρ h h' depth)
    (around : List ObjectId) (width level : Int) (v : Value) :
    h'.renderWithin (depth + 1) (around.map ρ) width level (rename ρ v)
      = rename ρ <$> h.renderWithin (depth + 1) around width level v := by
  have hp := hprint around width
  have hinspect : ∀ v, h'.inspectWithin depth (around.map ρ) (rename ρ v)
      = h.inspectWithin depth around v := hp.inspect
  -- The keys of a dictionary are rendered as values are, so a label is a rendering put into text.
  have hlabel : ∀ level v,
      (h'.renderWithin depth (around.map ρ) width level (rename ρ v)
        >>= (printerWithin h' depth (around.map ρ) width).text)
      = h.renderWithin depth around width level v
        >>= (printerWithin h depth around width).text := by
    intro level v
    have hrender := hp.render level v
    dsimp only at hrender
    rw [hrender]
    simp only [bind_map_left, hp.text]
  simp only [renderWithin]
  cases v with
  | object id =>
    have hself := hinspect (.object id)
    have hc := hh.object? id
    rw [rename_object] at hself
    simp only [rename_object]
    -- Both heaps are asked for their object at once: the copy relation, and not the heap, says
    -- which cases go together.
    revert hc
    generalize ho : h.object? id = o
    generalize ho' : h'.object? (ρ id) = o'
    rintro (⟨hc⟩ | _)
    · cases hc with
      | list items =>
        dsimp only
        rw [mapM_rename (hp.render level) items]
        simp only [bind_map_left, allTexts_rename, map_bind, map_pure, rename_str]
      | record kind slots parent frozen =>
        dsimp only
        rw [renderEntries hprint around width (level + 1) _ _ hp.slotName slots]
        simp only [Table.isEmpty_rename]
        split
        · rfl
        · split <;> simp
      | dict entries | proxy entries =>
        dsimp only
        have hparts := renderEntries hprint around width (level + 1)
          (fun v => h.renderWithin depth around width (level + 1) v
            >>= (printerWithin h depth around width).text)
          (fun v => h'.renderWithin depth (around.map ρ) width (level + 1) v
            >>= (printerWithin h' depth (around.map ρ) width).text)
          (hlabel (level + 1)) entries
        simp only [bind_assoc] at hparts
        rw [hparts]
        simp only [Table.isEmpty_rename]
        split
        · rfl
        · split <;> simp
      | environment bindings parent => rfl
      | function name recorded kind hb => exact hh.renderCallable hp (.object id)
      | bound target receiver => exact hh.renderCallable hp (.object id)
      | method m => exact hh.renderCallable hp (.object id)
      | node n => exact hp.renderNode width level n
      | reference r => exact hh.renderReference hp r
      | _ => simp only [hself, map_bind, map_pure, rename_str]
    · simp only [hself, map_bind, map_pure, rename_str]
  | type c => exact hh.renderCallable hp (.type c)
  | builtin f => exact hh.renderCallable hp (.builtin f)
  | int n =>
    have hself := hinspect (.int n)
    rw [rename_int] at hself
    simp only [rename_int, hself, map_bind, map_pure, rename_str]
  | float x =>
    have hself := hinspect (.float x)
    rw [rename_float] at hself
    simp only [rename_float, hself, map_bind, map_pure, rename_str]
  | _ => rfl

/-- To every depth, the printers of two heaps show values and their copies alike. -/
theorem printAlike (hh : h.Copy ρ h') (depth : Nat) : PrintAlike ρ h h' depth := by
  induction depth with
  | zero => exact fun around width => ⟨fun v => rfl, fun level v => rfl⟩
  | succ depth ih =>
    exact fun around width => ⟨hh.inspectWithin_succ ih around,
      hh.renderWithin_succ ih around width⟩

/-- The printer of a copy of a heap is a copy of the printer. -/
theorem printer (hh : h.Copy ρ h') (width : Int) : (h.printer width).Copy ρ (h'.printer width) :=
  hh.printAlike printDepth [] width

/-- The inspected form of a copy is that of the original. -/
theorem inspect (hh : h.Copy ρ h') (v : Value) : h'.inspect (rename ρ v) = h.inspect v :=
  (hh.printer 2).inspect v

/-- The text of a copy is that of the original. -/
theorem text (hh : h.Copy ρ h') (v : Value) : h'.text (rename ρ v) = h.text v :=
  (hh.printer 2).text v

/-- A report shows a node and its copy alike. -/
theorem placeText (hh : h.Copy ρ h') (n : Node) :
    Runner.placeText h' (rename ρ n) = Runner.placeText h n := by
  unfold Runner.placeText Heap.renderNode
  rw [(hh.printer 2).renderNode]
  simp only [bind_map_left, hh.text]

/-! ## Messages -/

/-- The type of a copied node is told by the same name. -/
theorem nodeTypeName (hh : h.Copy ρ h') (n : Node) : (rename ρ n).typeName h' = n.typeName h := by
  cases n with
  | value v => exact hh.typeName v
  | _ => rfl

/-- What is said of a tree that denotes nothing is said of its copy. -/
theorem treeMessage (hh : h.Copy ρ h') (fault : TreeFault) :
    (rename ρ fault).message h' = fault.message h := by
  cases fault with
  | noNumberText tree => simp only [rename_noNumberText, TreeFault.message, hh.inspect]
  | notProperty tree => simp only [rename_notProperty, TreeFault.message, hh.inspect]
  | notName tree => simp only [rename_notName, TreeFault.message, hh.inspect]
  | unknownTag tag => simp only [rename_unknownTag, TreeFault.message, hh.text]
  | _ => rfl

/-- A fault and its copy have the same message. -/
theorem message (hh : h.Copy ρ h') (fault : Fault) : (rename ρ fault).message h' = fault.message h := by
  change (fault.renamed ρ).message h' = fault.message h
  cases fault with
  | tree fault => exact hh.treeMessage fault
  | handlerNotFunction resolver kind bySymbol =>
    have hsymbol := hh.inspect (.object kind.symbol)
    rw [rename_object, Renaming.apply_symbol] at hsymbol
    simp only [Fault.renamed, Fault.message, hh.typeName, hsymbol]
  | _ =>
    simp only [Fault.renamed, Fault.message, hh.inspect, hh.text, hh.typeName, hh.nodeTypeName,
      base_rename]

/-- A fault and its copy arise as copies. -/
theorem arising (hh : h.Copy ρ h') (fault : Fault) :
    (rename ρ fault).arising h' = rename ρ (fault.arising h) := by
  unfold Fault.arising
  rw [hh.message]
  cases fault.message h <;> rfl

end Heap.Copy

end ChainScript
