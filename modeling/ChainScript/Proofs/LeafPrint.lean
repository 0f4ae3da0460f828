import ChainScript.Heap.Reach
import ChainScript.Proofs.HandlerSearch

/-!
# Printing what shows no object

The printers of values are bounded in depth, and most of what they print has no need of depth: a
value that names no object, and an object whose form is made of such values. `Heap.shows` lists the
values that the form of an object is made of, and a `Heap.Leaf` shows none that names an object. The
forms of leaves are the same at every depth from `leafDepth` on, and none of them was cut short.

`Firm` compares what two printers come to. Nodes need nothing but the values in them, so printers
that agree on plain values print alike the nodes that hold only such.
-/

namespace ChainScript

/-- Two printed forms are the same, and were not given up for their depth. -/
structure Firm {α : Type} (x y : Printed α) : Prop where
  eq : x = y
  inDepth : x ≠ .error .tooDeep

namespace Firm

variable {α β : Type} {x y : Printed α} {f g : α → Printed β}

/-- A form that is there is the same as itself. -/
theorem pure (a : α) : Firm (Pure.pure a) (Pure.pure a) := ⟨rfl, nofun⟩

/-- So is the failure for a lost attribute. -/
theorem lost : Firm (throw .lostAttribute : Printed α) (throw .lostAttribute) := ⟨rfl, nofun⟩

/-- So is the failure of what is no text. -/
theorem notText : Firm (throw .notText : Printed α) (throw .notText) := ⟨rfl, nofun⟩

/-- What was not given up for its depth is the same as itself. -/
theorem refl (hx : x ≠ .error .tooDeep) : Firm x x := ⟨rfl, hx⟩

/-- What goes on alike from a form that is the same comes to the same. -/
theorem bind_ok (hx : Firm x y) (hf : ∀ a, x = .ok a → Firm (f a) (g a)) :
    Firm (x >>= f) (y >>= g) := by
  obtain ⟨rfl, hdeep⟩ := hx
  cases x with
  | ok a => exact hf a rfl
  | error failure => exact ⟨rfl, fun h => hdeep (by cases h; rfl)⟩

/-- What goes on alike from the same form, whatever it is, comes to the same. -/
theorem bind (hx : Firm x y) (hf : ∀ a, Firm (f a) (g a)) : Firm (x >>= f) (y >>= g) :=
  hx.bind_ok fun a _ => hf a

/-- Items that are printed the same are printed the same in a row. -/
theorem mapM {f g : α → Printed β} {as : List α} (hf : ∀ a ∈ as, Firm (f a) (g a)) :
    Firm (as.mapM f) (as.mapM g) := by
  induction as with
  | nil => simpa using pure ([] : List β)
  | cons a as ih =>
    rw [List.mapM_cons, List.mapM_cons]
    refine (hf a List.mem_cons_self).bind fun b => ?_
    exact (ih fun a ha => hf a (List.mem_cons_of_mem _ ha)).bind fun bs => pure _

/-- That values are no texts is not for want of depth. -/
theorem allTexts (vs : List Value) : Firm (allTexts vs) (ChainScript.allTexts vs) := by
  induction vs with
  | nil => exact pure _
  | cons v vs ih =>
    cases v with
    | str s => exact ih.bind fun _ => pure _
    | _ => exact notText

end Firm

namespace ValuePrinter

/-- Two printers agree on values that name no object, which they show as texts. -/
structure Agree (p p' : ValuePrinter) : Prop where
  inspect : ∀ {v : Value}, v.objectId? = none → Firm (p.inspect v) (p'.inspect v)
  render : ∀ {v : Value} (level : Int), v.objectId? = none →
    ∃ s, p.render level v = .ok (.str s) ∧ p'.render level v = .ok (.str s)

/-- Two rendered forms are the same and were not given up, and what they come to names no object. -/
structure FirmPlain (x y : Printed Value) : Prop where
  firm : Firm x y
  plain : ∀ {v : Value}, x = .ok v → v.objectId? = none

namespace FirmPlain

/-- A value that names no object is such a form. -/
theorem pure {v : Value} (hv : v.objectId? = none) : FirmPlain (Pure.pure v) (Pure.pure v) :=
  ⟨.pure v, fun h => by cases h; exact hv⟩

/-- So is a text. -/
theorem str (s : String) : FirmPlain (Pure.pure (.str s)) (Pure.pure (.str s)) := .pure rfl

/-- What goes on from the same form to forms that name no object comes to such a form. -/
theorem bind {α : Type} {x y : Printed α} {f g : α → Printed Value} (hx : Firm x y)
    (hf : ∀ a, FirmPlain (f a) (g a)) : FirmPlain (x >>= f) (y >>= g) where
  firm := hx.bind fun a => (hf a).firm
  plain := by
    intro v hv
    cases x with
    | ok a => exact (hf a).plain hv
    | error failure => cases hv

end FirmPlain

namespace Agree

variable {p p' : ValuePrinter} {β : Type}

/-- Printers that agree put a plain value into the same words. -/
theorem text (hp : p.Agree p') {v : Value} (hv : v.objectId? = none) : Firm (p.text v) (p'.text v) := by
  cases v with
  | str s => exact .pure s
  | object id => cases hv
  | _ => exact hp.inspect rfl

/-- They print a plain value to the same form, which names no object. -/
theorem renderPlain (hp : p.Agree p') (level : Int) {v : Value} (hv : v.objectId? = none) :
    FirmPlain (p.render level v) (p'.render level v) := by
  obtain ⟨s, hs, hs'⟩ := hp.render level hv
  rw [hs, hs']
  exact .str s

/-- A rendered form that is the same is converted to the same text. -/
theorem text_of (hp : p.Agree p') {x y : Printed Value} (hx : FirmPlain x y) :
    Firm (x >>= p.text) (y >>= p'.text) :=
  hx.firm.bind_ok fun _ hv => hp.text (hx.plain hv)

/-- So is one from whose text something is made. -/
theorem bind_text (hp : p.Agree p') {x y : Printed Value} (hx : FirmPlain x y)
    {f g : String → Printed β} (hf : ∀ s, Firm (f s) (g s)) :
    Firm (x >>= fun v => p.text v >>= f) (y >>= fun v => p'.text v >>= g) := by
  rw [← bind_assoc, ← bind_assoc]
  exact (hp.text_of hx).bind hf

/-- So is one from which another rendered form is made. -/
theorem bind_shown (hp : p.Agree p') {x y : Printed Value} (hx : FirmPlain x y)
    {f g : String → Printed Value} (hf : ∀ s, FirmPlain (f s) (g s)) :
    FirmPlain (x >>= fun v => p.text v >>= f) (y >>= fun v => p'.text v >>= g) := by
  rw [← bind_assoc, ← bind_assoc]
  exact .bind (hp.text_of hx) hf

/-- They show the same plain name of a slot. -/
theorem slotName (hp : p.Agree p') {name : Value} (hname : name.objectId? = none) :
    Firm (p.slotName name) (p'.slotName name) := by
  have hcomputed : Firm
      (do let key ← p.text (← p.render 0 name); return "[" ++ key ++ "]")
      (do let key ← p'.text (← p'.render 0 name); return "[" ++ key ++ "]") :=
    hp.bind_text (hp.renderPlain 0 hname) fun _ => .pure _
  unfold ValuePrinter.slotName
  cases name with
  | str s =>
    dsimp only
    split
    · exact .pure s
    · exact hcomputed
  | _ => exact hcomputed

/-- They show an access by a plain key alike. -/
theorem slotAccess (hp : p.Agree p') {key : Value} (hkey : key.objectId? = none) :
    Firm (p.slotAccess key) (p'.slotAccess key) := by
  cases key with
  | str s => exact .pure _
  | _ => exact hp.bind_text (hp.renderPlain 0 hkey) fun _ => .pure _

/-! ## Nodes -/

mutual

/-- They show alike a node that holds only plain values. The induction is on the node. -/
theorem inspectNode (hp : p.Agree p') :
    ∀ n : Node, (∀ w ∈ n.held, w.objectId? = none) → Firm (p.inspectNode n) (p'.inspectNode n)
  | .literal v _, hn => (hp.inspect (hn v (by simp [Node.held]))).bind fun _ => .pure _
  | .identifier name _, hn => (hp.inspect (hn name (by simp [Node.held]))).bind fun _ => .pure _
  | .member obj name _, hn =>
    (inspectNode hp obj fun w hw => hn w (by simp [Node.held, hw])).bind fun _ =>
      (hp.inspect (hn name (by simp [Node.held]))).bind fun _ => .pure _
  | .index obj key _, hn =>
    (inspectNode hp obj fun w hw => hn w (by simp [Node.held, hw])).bind fun _ =>
      (inspectNode hp key fun w hw => hn w (by simp [Node.held, hw])).bind fun _ => .pure _
  | .chain obj resolver _, hn =>
    (inspectNode hp obj fun w hw => hn w (by simp [Node.held, hw])).bind fun _ =>
      (inspectNode hp resolver fun w hw => hn w (by simp [Node.held, hw])).bind fun _ => .pure _
  | .superMember name _, hn => (hp.inspect (hn name (by simp [Node.held]))).bind fun _ => .pure _
  | .assign target v _, hn =>
    (inspectNode hp target fun w hw => hn w (by simp [Node.held, hw])).bind fun _ =>
      (inspectNode hp v fun w hw => hn w (by simp [Node.held, hw])).bind fun _ => .pure _
  | .delete target _, hn =>
    (inspectNode hp target fun w hw => hn w (by simp [Node.held, hw])).bind fun _ => .pure _
  | .call callee args _, hn =>
    (inspectNode hp callee fun w hw => hn w (by simp [Node.held, hw])).bind fun _ =>
      (inspectNodes hp args fun w hw => hn w (by simp [Node.held, hw])).bind fun _ => .pure _
  | .objectLiteral entries _, hn =>
    (inspectEntries hp entries fun w hw => hn w (by simp [Node.held, hw])).bind fun _ => .pure _
  | .program body _ _, hn =>
    (inspectNodes hp body fun w hw => hn w (by simp [Node.held, hw])).bind fun _ => .pure _
  | .other _ _, _ => .pure _
  | .value v, hn => hp.inspect (hn v (by simp [Node.held]))
  | .list items, hn =>
    (inspectNodes hp items fun w hw => hn w (by simp [Node.held, hw])).bind fun _ => .pure _

/-- They show such nodes in a row alike. -/
theorem inspectNodes (hp : p.Agree p') :
    ∀ ns : List Node, (∀ w ∈ Node.heldAll ns, w.objectId? = none) →
      Firm (p.inspectNodes ns) (p'.inspectNodes ns)
  | [], _ => .pure _
  | n :: ns, hn =>
    (inspectNode hp n fun w hw => hn w (by simp [Node.heldAll, hw])).bind fun _ =>
      (inspectNodes hp ns fun w hw => hn w (by simp [Node.heldAll, hw])).bind fun _ => .pure _

/-- They show such entries of an object literal alike. -/
theorem inspectEntries (hp : p.Agree p') :
    ∀ entries : List (Value × Node), (∀ w ∈ Node.heldEntries entries, w.objectId? = none) →
      Firm (p.inspectEntries entries) (p'.inspectEntries entries)
  | [], _ => .pure _
  | (name, n) :: rest, hn =>
    (hp.inspect (hn name (by simp [Node.heldEntries]))).bind fun _ =>
      (inspectNode hp n fun w hw => hn w (by simp [Node.heldEntries, hw])).bind fun _ =>
        (inspectEntries hp rest fun w hw => hn w (by simp [Node.heldEntries, hw])).bind fun _ =>
          .pure _

end

mutual

/-- They print such a node to the same form, which names no object. -/
theorem renderNode (hp : p.Agree p') (width level : Int) :
    ∀ n : Node, (∀ w ∈ n.held, w.objectId? = none) →
      FirmPlain (p.renderNode width level n) (p'.renderNode width level n)
  | .literal v _, hn => hp.renderPlain level (hn v (by simp [Node.held]))
  | .identifier name _, hn => .pure (hn name (by simp [Node.held]))
  | .member obj name _, hn =>
    hp.bind_shown (renderNode hp width level obj fun w hw => hn w (by simp [Node.held, hw]))
      fun _ => .bind (hp.text (hn name (by simp [Node.held]))) fun _ => .str _
  | .index obj key _, hn =>
    hp.bind_shown (renderNode hp width level obj fun w hw => hn w (by simp [Node.held, hw]))
      fun _ => hp.bind_shown
        (renderNode hp width level key fun w hw => hn w (by simp [Node.held, hw])) fun _ => .str _
  | .chain obj resolver _, hn =>
    hp.bind_shown (renderNode hp width level obj fun w hw => hn w (by simp [Node.held, hw]))
      fun _ => hp.bind_shown
        (renderNode hp width level resolver fun w hw => hn w (by simp [Node.held, hw])) fun _ => .str _
  | .superMember name _, hn => .bind (hp.text (hn name (by simp [Node.held]))) fun _ => .str _
  | .assign target v _, hn =>
    hp.bind_shown (renderNode hp width level target fun w hw => hn w (by simp [Node.held, hw]))
      fun _ => hp.bind_shown
        (renderNode hp width level v fun w hw => hn w (by simp [Node.held, hw])) fun _ => .str _
  | .delete target _, hn =>
    hp.bind_shown (renderNode hp width level target fun w hw => hn w (by simp [Node.held, hw]))
      fun _ => .str _
  | .call callee args _, hn =>
    .bind (renderNodes hp width level args fun w hw => hn w (by simp [Node.held, hw])) fun values =>
      .bind (.allTexts values) fun _ => hp.bind_shown
        (renderNode hp width level callee fun w hw => hn w (by simp [Node.held, hw])) fun _ => .str _
  | .objectLiteral entries _, hn =>
    .bind (renderEntries hp width level entries fun w hw => hn w (by simp [Node.held, hw]))
      fun _ => .str _
  | .program body strict _, hn =>
    .bind (renderLines hp width level body fun w hw => hn w (by simp [Node.held, hw]))
      fun _ => .str _
  | .other _ _, _ => .str _
  | .value v, hn => hp.renderPlain level (hn v (by simp [Node.held]))
  | .list items, hn =>
    .bind (renderNodes hp width level items fun w hw => hn w (by simp [Node.held, hw]))
      fun values => .bind (.allTexts values) fun _ => .str _

/-- They print such nodes in a row alike. -/
theorem renderNodes (hp : p.Agree p') (width level : Int) :
    ∀ ns : List Node, (∀ w ∈ Node.heldAll ns, w.objectId? = none) →
      Firm (p.renderNodes width level ns) (p'.renderNodes width level ns)
  | [], _ => .pure _
  | n :: ns, hn =>
    (renderNode hp width level n fun w hw => hn w (by simp [Node.heldAll, hw])).firm.bind fun _ =>
      (renderNodes hp width level ns fun w hw => hn w (by simp [Node.heldAll, hw])).bind fun _ =>
        .pure _

/-- They print such entries of an object literal alike. -/
theorem renderEntries (hp : p.Agree p') (width level : Int) :
    ∀ entries : List (Value × Node), (∀ w ∈ Node.heldEntries entries, w.objectId? = none) →
      Firm (p.renderEntries width level entries) (p'.renderEntries width level entries)
  | [], _ => .pure _
  | (name, n) :: rest, hn =>
    (hp.slotName (hn name (by simp [Node.heldEntries]))).bind fun _ =>
      hp.bind_text
        (renderNode hp width level n fun w hw => hn w (by simp [Node.heldEntries, hw])) fun _ =>
        (renderEntries hp width level rest fun w hw => hn w (by simp [Node.heldEntries, hw])).bind
          fun _ => .pure _

/-- They print such statements to the same lines. -/
theorem renderLines (hp : p.Agree p') (width level : Int) :
    ∀ ns : List Node, (∀ w ∈ Node.heldAll ns, w.objectId? = none) →
      Firm (p.renderLines width level ns) (p'.renderLines width level ns)
  | [], _ => .pure _
  | n :: ns, hn =>
    (renderNode hp width level n fun w hw => hn w (by simp [Node.heldAll, hw])).firm.bind fun v => by
      cases v with
      | str s =>
        exact (renderLines hp width level ns fun w hw =>
          hn w (by simp [Node.heldAll, hw])).bind fun _ => .pure _
      | _ => exact .notText

end

end Agree

end ValuePrinter

namespace Heap

variable {h : Heap}

/-! ## Leaves -/

/-- The printers of a heap, to a depth. -/
def printerWithin (h : Heap) (depth : Nat) (width : Int) : ValuePrinter :=
  ⟨h.inspectWithin depth [], fun level v => h.renderWithin depth [] width level v⟩

/-- Whether a value is shown with what it holds. -/
def isContainer (h : Heap) (v : Value) : Bool :=
  match h.objectOf? v with
  | some (.list _) | some (.record ..) | some (.dict _) | some (.proxy _) => true
  | _ => false

/-- The values that the inspected form of a value is made of, given its object, unless it is a
container.
-/
def inspectShows (h : Heap) : Option Object → List Value
  | some (.tuple items) => items
  | some (.symbol description) => description.toList
  | some (.function f) => f.name.toList
  | some (.bound (some target) (some _)) => (h.shownName? target).toList
  | some (.method m) => [m.receiver]
  | some (.reference r) =>
    match r.name with
    | .binding name | .ordinary name => [name]
    | .virtual _ => []
  | some (.node n) => n.held
  | _ => []

/-- The values that the rendered form of a value is made of, unless it is a container. What can be
called shows its name, if it has one. -/
def shows (h : Heap) (v : Value) : List Value :=
  match h.isCallable v, h.shownName? v with
  | true, some name => if h.isTruthy name then [name] else h.inspectShows (h.objectOf? v)
  | _, _ => h.inspectShows (h.objectOf? v)

/-- A value that is shown without any object but itself. If it is a store of other data, its size
can be told. -/
structure Leaf (h : Heap) (v : Value) : Prop where
  single : h.isContainer v = false
  plain : ∀ w ∈ h.shows v, w.objectId? = none
  sized : h.length v ≠ .error .tooDeep

/-- A value that names no object is rendered alike wherever there is any depth. -/
theorem exists_renderWithin (h : Heap) {v : Value} (hv : v.objectId? = none) :
    ∃ s, ∀ (depth : Nat) (around : List ObjectId) (width level : Int),
      h.renderWithin (depth + 2) around width level v = .ok (.str s) := by
  obtain ⟨text, htext⟩ := exists_inspectWithin hv
  have hname : ∀ c : String, h.shownName? v = some (.str c) →
      ∃ s, ∀ p : ValuePrinter, p.inspect v = .ok text → h.renderCallable p v = .ok (.str s) := by
    intro c hc
    by_cases hempty : h.isTruthy (.str c) = true
    · exact ⟨"<fn " ++ c ++ ">", fun p _ => by rw [renderCallable, hc]; simp only [hempty]; rfl⟩
    · refine ⟨text, fun p hp => ?_⟩
      rw [renderCallable, hc]
      simp only [hempty, hp]
      rfl
  cases v with
  | object id => cases hv
  | int n | float x =>
    refine ⟨text, fun depth around width level => ?_⟩
    simp only [renderWithin, htext h depth around]
    rfl
  | type c =>
    obtain ⟨s, hs⟩ := hname c.name rfl
    exact ⟨s, fun depth around width level => by
      rw [renderWithin]; exact hs _ (htext h depth around)⟩
  | builtin f =>
    obtain ⟨s, hs⟩ := hname f.name rfl
    exact ⟨s, fun depth around width level => by
      rw [renderWithin]; exact hs _ (htext h depth around)⟩
  | _ => exact ⟨_, fun depth around width level => by rw [renderWithin]; rfl⟩

/-- A value that names no object is inspected alike wherever there is any depth. -/
theorem firm_inspect_plain (h : Heap) {v : Value} (hv : v.objectId? = none) (d d' : Nat)
    (around around' : List ObjectId) :
    Firm (h.inspectWithin (d + 1) around v) (h.inspectWithin (d' + 1) around' v) := by
  obtain ⟨text, htext⟩ := exists_inspectWithin hv
  rw [htext, htext]
  exact .pure text

/-- Wherever there is any depth, the printers of a heap agree on values that name no object. -/
theorem agree_printers (h : Heap) (d d' : Nat) (width width' : Int) :
    (h.printerWithin (d + 2) width).Agree (h.printerWithin (d' + 2) width') where
  inspect hv := h.firm_inspect_plain hv (d + 1) (d' + 1) [] []
  render {v} level hv := by
    obtain ⟨s, hs⟩ := h.exists_renderWithin hv
    exact ⟨s, hs d [] width level, hs d' [] width' level⟩

/-- The text of an attribute that an object keeps, or that it has lost. -/
theorem firm_keptText {p p' : ValuePrinter} (hp : p.Agree p') {kept : Option Value}
    (hkept : ∀ w ∈ kept.toList, w.objectId? = none) :
    Firm (keptText p.text kept) (keptText p'.text kept) := by
  cases kept with
  | none => exact .lost
  | some v => exact hp.text (hkept v (by simp))

/-- The form of a value in a rendered reference opens no object. -/
theorem firm_shortForm {p p' : ValuePrinter} (hp : p.Agree p') (v : Value) :
    Firm (h.shortForm p v) (h.shortForm p' v) := by
  unfold shortForm
  -- What is shown by a name, of its own or of its type, is shown alike by every printer.
  cases v with
  | object id =>
    cases h.objectOf? (.object id) with
    | none =>
      dsimp only
      split <;> exact .pure _
    | some o =>
      cases o with
      | record => exact .pure _
      | _ =>
        dsimp only
        split <;> exact .pure _
  | type c | builtin f =>
    dsimp only
    split <;> exact .pure _
  | _ => exact hp.text_of (hp.renderPlain 0 (by rfl))

/-- The rendered form of a reference. -/
theorem firm_renderReference {p p' : ValuePrinter} (hp : p.Agree p') {r : Reference}
    (hr : ∀ w ∈ h.inspectShows (some (.reference r)), w.objectId? = none) :
    ValuePrinter.FirmPlain (h.renderReference p r) (h.renderReference p' r) := by
  unfold renderReference
  cases hname : r.name with
  | binding name =>
    have hplain : name.objectId? = none := hr name (by simp [inspectShows, hname])
    dsimp only
    split
    · exact .pure hplain
    · exact .bind (hp.text hplain) fun _ => .str _
  | ordinary key =>
    have hplain : key.objectId? = none := hr key (by simp [inspectShows, hname])
    have haccess := hp.slotAccess hplain
    dsimp only
    split
    · exact .bind (.pure _) fun _ => .bind haccess fun _ => .str _
    · exact .bind (firm_shortForm hp _) fun _ => .bind haccess fun _ => .str _
  | virtual resolver =>
    exact .bind (firm_shortForm hp _) fun _ => .bind (firm_shortForm hp _) fun _ => .str _

/-- The inspected form of an object that is made of values that name no object. -/
theorem firm_inspect {id : ObjectId} (hsingle : h.isContainer (.object id) = false)
    (hplain : ∀ w ∈ h.inspectShows (h.object? id), w.objectId? = none)
    (hsized : h.length (.object id) ≠ .error .tooDeep) (d d' : Nat) :
    Firm (h.inspectWithin (d + 4) [] (.object id)) (h.inspectWithin (d' + 4) [] (.object id)) := by
  have hp := h.agree_printers (d + 1) (d' + 1) 2 2
  rw [inspectWithin, inspectWithin]
  cases ho : h.object? id with
  | none => exact .pure _
  | some o =>
    rw [ho] at hplain
    cases o with
    | list | record | dict | proxy => simp [isContainer, objectOf?, ho] at hsingle
    | tuple items =>
      have hitems : Firm (items.mapM (h.inspectWithin (d + 3) [id]))
          (items.mapM (h.inspectWithin (d' + 3) [id])) :=
        .mapM fun w hw => h.firm_inspect_plain (hplain w hw) _ _ _ _
      exact hitems.bind fun _ => .pure _
    | symbol description =>
      dsimp only
      split
      · exact .pure _
      · exact (firm_keptText hp hplain).bind fun _ => .pure _
    | accessor getter setter =>
      cases getter with
      | none => exact .lost
      | some g =>
        cases setter with
        | none => exact .lost
        | some s => exact .pure _
    | function f => exact (firm_keptText hp hplain).bind fun _ => .pure _
    | bound target receiver =>
      cases target with
      | none => exact .lost
      | some target =>
        cases receiver with
        | none => exact .lost
        | some receiver =>
          -- Of the target only its name is shown, and of the receiver only its type, so both may be
          -- any objects.
          have hname : ((h.shownName? target).getD (.str (h.typeName target))).objectId? = none := by
            cases hshown : h.shownName? target with
            | none => rfl
            | some name => exact hplain name (by simp [inspectShows, hshown])
          exact (hp.text hname).bind fun _ => .pure _
    | husk data => exact (Firm.refl hsized).bind fun _ => .pure _
    | method m =>
      exact (hp.inspect (hplain m.receiver (by simp [inspectShows]))).bind fun _ => .pure _
    | environment bindings parent => exact (Firm.allTexts _).bind fun _ => .pure _
    | reference r =>
      have hrendered : ValuePrinter.FirmPlain (h.renderWithin (d + 3) [] 2 0 (.object id))
          (h.renderWithin (d' + 3) [] 2 0 (.object id)) := by
        rw [renderWithin, renderWithin, ho]
        exact firm_renderReference (h.agree_printers d d' 2 2) hplain
      exact hp.bind_text hrendered fun _ => .pure _
    | node n => exact hp.inspectNode n hplain
    | _ => exact .pure _

/-- What can be called shows its name, where it has one, and is inspected otherwise. -/
theorem firm_renderCallable {p p' : ValuePrinter} (hp : p.Agree p') {v : Value}
    (hname : ∀ name, h.shownName? v = some name → h.isTruthy name = true → name.objectId? = none)
    (hinspect : (∀ name, h.shownName? v = some name → h.isTruthy name = false) →
      Firm (p.inspect v) (p'.inspect v)) :
    ValuePrinter.FirmPlain (h.renderCallable p v) (h.renderCallable p' v) := by
  unfold renderCallable
  cases hshown : h.shownName? v with
  | none => exact .bind (hinspect fun name hno => by rw [hshown] at hno; cases hno) fun _ => .str _
  | some name =>
    dsimp only
    split
    next htruthy => exact .bind (hp.text (hname name hshown htruthy)) fun _ => .str _
    next hfalsy =>
      refine .bind (hinspect fun other hother => ?_) fun _ => .str _
      rw [hshown] at hother
      cases hother
      exact Bool.eq_false_iff.mpr hfalsy

/-- The depth from which on every leaf is shown alike. -/
def leafDepth : Nat := 5

/-- A leaf that is not shown by its name is made of values that name no object. -/
theorem Leaf.plain_inspectShows {v : Value} (hv : h.Leaf v)
    (hname : ∀ name, h.isCallable v = true → h.shownName? v = some name → h.isTruthy name = false) :
    ∀ w ∈ h.inspectShows (h.objectOf? v), w.objectId? = none := by
  have hplain := hv.plain
  unfold shows at hplain
  split at hplain
  next name hcallable hshown => rwa [hname name hcallable hshown] at hplain
  next => exact hplain

/-- What can be called and is a leaf is shown alike. -/
theorem Leaf.firm_renderCallable {p p' : ValuePrinter} (hp : p.Agree p') {v : Value} (hv : h.Leaf v)
    (hcallable : h.isCallable v = true)
    (hinspect : (∀ w ∈ h.inspectShows (h.objectOf? v), w.objectId? = none) →
      Firm (p.inspect v) (p'.inspect v)) :
    ValuePrinter.FirmPlain (h.renderCallable p v) (h.renderCallable p' v) := by
  refine Heap.firm_renderCallable hp ?_ fun hfalsy => ?_
  · intro name hshown htruthy
    have hshows : h.shows v = [name] := by simp [shows, hcallable, hshown, htruthy]
    exact hv.plain name (by rw [hshows]; exact List.mem_singleton.mpr rfl)
  · exact hinspect (hv.plain_inspectShows fun name _ hshown => hfalsy name hshown)

/-- From some depth on, a leaf is rendered alike. -/
theorem Leaf.firm_render {v : Value} (hv : h.Leaf v) (d d' : Nat) (width level : Int) :
    ValuePrinter.FirmPlain (h.renderWithin (d + leafDepth) [] width level v)
      (h.renderWithin (d' + leafDepth) [] width level v) := by
  cases hid : v.objectId? with
  | none => exact (h.agree_printers (d + 3) (d' + 3) width width).renderPlain level hid
  | some id =>
    -- Here `leafDepth` is used up: one level goes into rendering the object, the others into its
    -- inspected form and into what stands in that.
    obtain rfl : v = .object id := by cases v <;> cases hid; rfl
    have hp := h.agree_printers (d + 2) (d' + 2) width width
    have hinspect : (∀ w ∈ h.inspectShows (h.object? id), w.objectId? = none) →
        Firm (h.inspectWithin (d + 4) [] (.object id)) (h.inspectWithin (d' + 4) [] (.object id)) :=
      fun hplain => firm_inspect hv.single hplain hv.sized d d'
    have hshown : h.isCallable (.object id) = false →
        ∀ w ∈ h.inspectShows (h.object? id), w.objectId? = none :=
      fun hno => hv.plain_inspectShows fun name hyes => by rw [hno] at hyes; cases hyes
    show ValuePrinter.FirmPlain (h.renderWithin (d + 4 + 1) [] width level (.object id))
      (h.renderWithin (d' + 4 + 1) [] width level (.object id))
    rw [renderWithin, renderWithin]
    cases ho : h.object? id with
    | none =>
      have hno : h.isCallable (.object id) = false := by simp [isCallable, ho]
      exact .bind (hinspect (hshown hno)) fun _ => .str _
    | some o =>
      cases o with
      | list | record | dict | proxy =>
        have hsingle := hv.single
        simp [isContainer, objectOf?, ho] at hsingle
      | environment => exact .str _
      | function | bound | method =>
        exact hv.firm_renderCallable hp (by simp [isCallable, ho]) hinspect
      | node n =>
        have hno : h.isCallable (.object id) = false := by simp [isCallable, ho]
        have hheld := hshown hno
        rw [ho] at hheld
        exact hp.renderNode width level n hheld
      | reference r =>
        have hno : h.isCallable (.object id) = false := by simp [isCallable, ho]
        have hname := hshown hno
        rw [ho] at hname
        exact firm_renderReference hp hname
      | _ =>
        have hno : h.isCallable (.object id) = false := by simp [isCallable, ho]
        exact .bind (hinspect (hshown hno)) fun _ => .str _

end Heap

end ChainScript
