import ChainScript.Proofs.Report

/-!
# Which nodes can be shown

A node is shown by joining the printed forms of its parts. The printed form of an identifier is its
name as it is, of whatever kind, and so may be the printed form of a value. Some places convert such
a form to text, as the places of operands do; others take only what is text already, as do the
arguments of a call, the statements of a program and the items of a list. `ValuePrinter.Legible`
says of a node that every part meets what its place demands, and printing succeeds exactly then.

A report shows the node at which a program failed. It can be made exactly when that node is legible.
-/

namespace ChainScript

open Run (on)

/-- What a place demands of the printed form that stands in it: that it can be shown as text, or
that it is text. -/
inductive Demand where
  | shown
  | text

namespace ValuePrinter

/-- Whether a printed form meets a demand. -/
def Meets (p : ValuePrinter) : Demand → Value → Prop
  | .shown, v => ∃ s, p.text v = .ok s
  | .text, v => ∃ s, v = .str s

/-- Whether a printed form can be made and meets a demand. -/
def Prints (p : ValuePrinter) (d : Demand) (form : Printed Value) : Prop :=
  ∃ v, form = .ok v ∧ p.Meets d v

mutual

/-- Whether every part of a node meets the demand of its place, given that of the node. -/
def Legible (p : ValuePrinter) (level : Int) : Demand → Node → Prop
  | d, .literal v _ | d, .value v => p.Prints d (p.render level v)
  | d, .identifier name _ => p.Meets d name
  | _, .member obj name _ => p.Legible level .shown obj ∧ p.Meets .shown name
  | _, .index obj key _ => p.Legible level .shown obj ∧ p.Legible level .shown key
  | _, .chain obj resolver _ => p.Legible level .shown obj ∧ p.Legible level .shown resolver
  | _, .superMember name _ => p.Meets .shown name
  | _, .assign target v _ => p.Legible level .shown target ∧ p.Legible level .shown v
  | _, .delete target _ => p.Legible level .shown target
  | _, .call callee args _ => p.LegibleAll level args ∧ p.Legible level .shown callee
  | _, .objectLiteral entries _ => p.LegibleEntries level entries
  | _, .program body _ _ => p.LegibleAll level body
  | _, .other .. => True
  | _, .list items => p.LegibleAll level items

/-- Whether every node of a list can stand where only text can. -/
def LegibleAll (p : ValuePrinter) (level : Int) : List Node → Prop
  | [] => True
  | n :: ns => p.Legible level .text n ∧ p.LegibleAll level ns

/-- Whether the names and the values of all entries of an object literal can be shown. -/
def LegibleEntries (p : ValuePrinter) (level : Int) : List (Value × Node) → Prop
  | [] => True
  | (name, n) :: rest =>
    (∃ s, p.slotName name = .ok s) ∧ p.Legible level .shown n ∧ p.LegibleEntries level rest

end

/-! ## Printing joined forms -/

variable {p : ValuePrinter} {d : Demand} {α β : Type}

/-- Text meets every demand. -/
theorem meets_str (d : Demand) (s : String) : p.Meets d (.str s) := by
  cases d with
  | shown => exact ⟨s, rfl⟩
  | text => exact ⟨s, rfl⟩

/-- What is printed is what it should be if its value is. -/
@[simp] theorem prints_ok (v : Value) : p.Prints d (.ok v) ↔ p.Meets d v :=
  ⟨fun ⟨_, hv, h⟩ => by cases hv; exact h, fun h => ⟨v, rfl, h⟩⟩

/-- What is not printed is not as it should be. -/
@[simp] theorem not_prints_error (failure : PrintFailure) : ¬p.Prints d (.error failure) :=
  fun ⟨_, hv, _⟩ => nomatch hv

/-- A text is printed as every demand would have it. -/
theorem prints_str (s : String) : p.Prints d (pure (.str s)) ↔ True :=
  iff_true_intro ((prints_ok _).mpr (meets_str d s))

/-- What is made of two parts, and of which something holds that does not depend on the first, can
be made where both can. -/
theorem exists_bind {T : β → Prop} {x : Printed α} {k : α → Printed β} {Q : Prop}
    (hk : ∀ a, (∃ b, k a = .ok b ∧ T b) ↔ Q) :
    (∃ b, x >>= k = .ok b ∧ T b) ↔ (∃ a, x = .ok a) ∧ Q := by
  cases x with
  | ok a => exact (hk a).trans ⟨fun hq => ⟨⟨a, rfl⟩, hq⟩, fun h => h.2⟩
  | error failure => exact ⟨fun ⟨_, hb, _⟩ => (nomatch hb), fun ⟨⟨_, ha⟩, _⟩ => (nomatch ha)⟩

/-- The same where nothing more has to hold. -/
theorem exists_bind_ok {x : Printed α} {k : α → Printed β} {Q : Prop}
    (hk : ∀ a, (∃ b, k a = .ok b) ↔ Q) : (∃ b, x >>= k = .ok b) ↔ (∃ a, x = .ok a) ∧ Q := by
  simpa only [and_true] using exists_bind (T := fun _ => True) (by simpa only [and_true] using hk)

/-- The same for what has to meet a demand. -/
theorem prints_bind {x : Printed α} {k : α → Printed Value} {Q : Prop}
    (hk : ∀ a, p.Prints d (k a) ↔ Q) : p.Prints d (x >>= k) ↔ (∃ a, x = .ok a) ∧ Q :=
  exists_bind hk

/-- A printed form is converted to text where it can be shown. -/
theorem exists_text {x : Printed Value} : (∃ s, x >>= p.text = .ok s) ↔ p.Prints .shown x := by
  cases x with
  | ok v => exact (prints_ok (p := p) (d := .shown) v).symm
  | error failure => exact ⟨fun ⟨_, hs⟩ => (nomatch hs), fun h => (not_prints_error _ h).elim⟩

/-- What is made after a printed form was converted to text can be made where the form can be
shown. -/
theorem prints_shown {x : Printed Value} {k : String → Printed Value} {Q : Prop}
    (hk : ∀ s, p.Prints d (k s) ↔ Q) :
    p.Prints d (x >>= fun v => p.text v >>= k) ↔ p.Prints .shown x ∧ Q := by
  rw [← bind_assoc, prints_bind hk, exists_text]

/-- A list begins with text where its first printed form is text. -/
theorem exists_texts_cons {x : Printed Value} {y : Printed (List Value)} :
    (∃ ts, (do allTexts ((← x) :: (← y))) = Except.ok ts)
      ↔ p.Prints .text x ∧ ∃ ts, y >>= allTexts = .ok ts := by
  cases x with
  | error failure => exact ⟨fun ⟨_, hs⟩ => (nomatch hs), fun h => (not_prints_error _ h.1).elim⟩
  | ok v =>
    -- The items are printed first and joined afterwards, so a later one may fail before a first one
    -- that is not text is noticed. Either way there is no list of texts.
    cases y with
    | error failure => exact ⟨fun ⟨_, hs⟩ => (nomatch hs), fun ⟨_, _, hs⟩ => (nomatch hs)⟩
    | ok vs =>
      rw [prints_ok]
      cases v with
      | str s =>
        exact (exists_bind_ok (k := fun ts => pure (s :: ts)) fun ts =>
          iff_true_intro ⟨s :: ts, rfl⟩).trans (by simp [Meets, bind, Except.bind])
      | _ => exact ⟨fun ⟨_, hs⟩ => (nomatch hs), fun ⟨⟨_, hs⟩, _⟩ => (nomatch hs)⟩

/-- Lines begin with the line of a statement where its printed form is text. -/
theorem exists_lines_cons {x : Printed Value} {y : Printed (List String)} {indent : String} :
    (∃ lines, (do
      let line ← match ← x with
        | .str s => pure (indent ++ s)
        | _ => throw .notText
      return line :: (← y)) = Except.ok lines) ↔ p.Prints .text x ∧ ∃ lines, y = .ok lines := by
  cases x with
  | error failure => exact ⟨fun ⟨_, hs⟩ => (nomatch hs), fun h => (not_prints_error _ h.1).elim⟩
  | ok v =>
    rw [prints_ok]
    cases v with
    | str s =>
      exact (exists_bind_ok (k := fun lines => pure (_ :: lines)) fun lines =>
        iff_true_intro ⟨_ :: lines, rfl⟩).trans (by simp [Meets])
    | _ => exact ⟨fun ⟨_, hs⟩ => (nomatch hs), fun ⟨⟨_, hs⟩, _⟩ => (nomatch hs)⟩

/-! ## Nodes -/

mutual

/-- The printed form of a node can be made, and meets a demand, exactly when the node is legible. -/
theorem prints_renderNode (p : ValuePrinter) (width level : Int) :
    ∀ (n : Node) (d : Demand), p.Prints d (p.renderNode width level n) ↔ p.Legible level d n
  | .literal v _, d => by rw [renderNode, Legible]
  | .value v, d => by rw [renderNode, Legible]
  | .identifier name _, d => by
    rw [renderNode, Legible]
    exact ⟨fun ⟨_, hv, h⟩ => by cases hv; exact h, fun h => ⟨name, rfl, h⟩⟩
  | .member obj name _, d => by
    rw [renderNode, Legible, ← prints_renderNode p width level obj .shown]
    exact (prints_shown fun s => (prints_bind fun t => prints_str _)).trans (by simp [Meets])
  | .index obj key _, d => by
    rw [renderNode, Legible, ← prints_renderNode p width level obj .shown,
      ← prints_renderNode p width level key .shown]
    exact (prints_shown fun s => (prints_shown fun t => prints_str _)).trans (by simp)
  | .chain obj resolver _, d => by
    rw [renderNode, Legible, ← prints_renderNode p width level obj .shown,
      ← prints_renderNode p width level resolver .shown]
    exact (prints_shown fun s => (prints_shown fun t => prints_str _)).trans (by simp)
  | .superMember name _, d => by
    rw [renderNode, Legible]
    exact (prints_bind fun t => prints_str _).trans (by simp [Meets])
  | .assign target v _, d => by
    rw [renderNode, Legible, ← prints_renderNode p width level target .shown,
      ← prints_renderNode p width level v .shown]
    exact (prints_shown fun s => (prints_shown fun t => prints_str _)).trans (by simp)
  | .delete target _, d => by
    rw [renderNode, Legible, ← prints_renderNode p width level target .shown]
    exact (prints_shown fun s => prints_str _).trans (by simp)
  | .call callee args _, d => by
    rw [renderNode, Legible, ← prints_renderNode p width level callee .shown,
      ← exists_renderTexts p width level args]
    rw [← bind_assoc]
    exact (prints_bind fun texts => prints_shown fun f => prints_str _).trans (by simp)
  | .objectLiteral entries _, d => by
    rw [renderNode, Legible, ← exists_renderEntries p width level entries]
    exact (prints_bind fun texts => prints_str _).trans (by simp)
  | .program body strict _, d => by
    rw [renderNode, Legible, ← exists_renderLines p width level body]
    exact (prints_bind fun texts => prints_str _).trans (by simp)
  | .other kind _, d => by
    rw [renderNode, Legible]
    exact prints_str _
  | .list items, d => by
    rw [renderNode, Legible, ← exists_renderTexts p width level items, ← bind_assoc]
    exact (prints_bind fun texts => prints_str _).trans (by simp)

/-- Nodes in a row are printed to texts exactly when they are legible. -/
theorem exists_renderTexts (p : ValuePrinter) (width level : Int) :
    ∀ ns : List Node, (∃ ts, (do allTexts (← p.renderNodes width level ns)) = Except.ok ts)
      ↔ p.LegibleAll level ns
  | [] => by
    rw [renderNodes, LegibleAll]
    exact iff_true_intro ⟨[], rfl⟩
  | n :: ns => by
    rw [LegibleAll, ← prints_renderNode p width level n, ← exists_renderTexts p width level ns,
      ← exists_texts_cons, renderNodes]
    simp only [bind_assoc, pure_bind]

/-- Statements are printed to lines exactly when they are legible. -/
theorem exists_renderLines (p : ValuePrinter) (width level : Int) :
    ∀ ns : List Node, (∃ lines, p.renderLines width level ns = .ok lines) ↔ p.LegibleAll level ns
  | [] => by
    rw [renderLines, LegibleAll]
    exact iff_true_intro ⟨[], rfl⟩
  | n :: ns => by
    rw [LegibleAll, ← prints_renderNode p width level n, ← exists_renderLines p width level ns,
      renderLines]
    exact exists_lines_cons

/-- Entries are printed exactly when they are legible. -/
theorem exists_renderEntries (p : ValuePrinter) (width level : Int) :
    ∀ entries : List (Value × Node),
      (∃ texts, p.renderEntries width level entries = .ok texts) ↔ p.LegibleEntries level entries
  | [] => by
    rw [renderEntries, LegibleEntries]
    exact iff_true_intro ⟨[], rfl⟩
  | (name, n) :: rest => by
    rw [LegibleEntries, ← prints_renderNode p width level n,
      ← exists_renderEntries p width level rest, renderEntries, ← exists_text]
    refine exists_bind_ok fun key => ?_
    rw [← bind_assoc]
    exact exists_bind_ok fun value =>
      (exists_bind_ok fun texts => iff_true_intro ⟨_ :: texts, rfl⟩).trans (by simp)

end

end ValuePrinter

/-! ## Nodes without surprises -/

/-- A value that the language has a notation for. -/
def Value.Plain : Value → Prop
  | .type _ | .builtin _ | .object _ => False
  | _ => True

namespace Node

mutual

/-- All names in the node are text, and all values in it are plain. -/
def Plain : Node → Prop
  | .literal v _ | .value v => v.Plain
  | .identifier name _ | .superMember name _ => ∃ s, name = .str s
  | .member obj name _ => obj.Plain ∧ ∃ s, name = .str s
  | .index obj key _ => obj.Plain ∧ key.Plain
  | .chain obj resolver _ => obj.Plain ∧ resolver.Plain
  | .assign target v _ => target.Plain ∧ v.Plain
  | .delete target _ => target.Plain
  | .call callee args _ => callee.Plain ∧ PlainAll args
  | .objectLiteral entries _ => PlainEntries entries
  | .program body _ _ => PlainAll body
  | .other .. => True
  | .list items => PlainAll items

/-- Nodes in a row that are plain. -/
def PlainAll : List Node → Prop
  | [] => True
  | n :: ns => n.Plain ∧ PlainAll ns

/-- Entries of an object literal that are plain. -/
def PlainEntries : List (Value × Node) → Prop
  | [] => True
  | (name, n) :: rest => (∃ s, name = .str s) ∧ n.Plain ∧ PlainEntries rest

end

end Node

namespace Heap

/-- Plain values are primitive on every heap. -/
theorem isPrimitive_of_plain (h : Heap) {v : Value} (hv : v.Plain) : h.isPrimitive v = true := by
  cases v with
  | type c => exact hv.elim
  | builtin f => exact hv.elim
  | object id => exact hv.elim
  | _ => rfl

/-- Plain values are inspected on every heap. -/
theorem inspect_plain (h : Heap) {v : Value} (hv : v.Plain) : ∃ s, h.inspect v = .ok s := by
  obtain ⟨depth, hdepth⟩ := exists_printDepth
  simp only [inspect, printer, hdepth]
  cases v with
  | type c => exact hv.elim
  | builtin f => exact hv.elim
  | object id => exact hv.elim
  | _ => exact ⟨_, rfl⟩

/-- Plain values are rendered as text on every heap. -/
theorem render_plain (h : Heap) (width level : Int) {v : Value} (hv : v.Plain) :
    ∃ s, (h.printer width).render level v = .ok (.str s) := by
  obtain ⟨depth, hdepth⟩ := exists_printDepth
  simp only [printer, hdepth]
  cases v with
  | type c => exact hv.elim
  | builtin f => exact hv.elim
  | object id => exact hv.elim
  | _ => exact ⟨_, rfl⟩

/-- A slot can be written under every name that is text. -/
theorem slotName_str (h : Heap) (width : Int) (s : String) :
    ∃ t, (h.printer width).slotName (.str s) = .ok t := by
  obtain ⟨key, hkey⟩ := h.render_plain width 0 (v := .str s) .intro
  simp only [ValuePrinter.slotName]
  split
  · exact ⟨s, rfl⟩
  · rw [hkey]
    exact ⟨"[" ++ key ++ "]", rfl⟩

mutual

/-- A plain node is legible on every heap. -/
theorem legible_of_plain (h : Heap) (width level : Int) :
    ∀ (n : Node) (d : Demand), n.Plain → (h.printer width).Legible level d n
  | .literal v _, d, hn | .value v, d, hn => by
    rw [ValuePrinter.Legible]
    obtain ⟨s, hs⟩ := h.render_plain width level hn
    rw [hs, ValuePrinter.prints_ok]
    exact ValuePrinter.meets_str d s
  | .identifier name _, d, hn => by
    rw [ValuePrinter.Legible]
    obtain ⟨s, rfl⟩ := hn
    exact ValuePrinter.meets_str d s
  | .superMember name _, _, hn => by
    rw [ValuePrinter.Legible]
    obtain ⟨s, rfl⟩ := hn
    exact ValuePrinter.meets_str .shown s
  | .member obj name _, _, hn => by
    rw [ValuePrinter.Legible]
    obtain ⟨hobj, s, rfl⟩ := hn
    exact ⟨legible_of_plain h width level obj .shown hobj, ValuePrinter.meets_str .shown s⟩
  | .index a b _, _, hn | .chain a b _, _, hn | .assign a b _, _, hn => by
    rw [ValuePrinter.Legible]
    exact ⟨legible_of_plain h width level a .shown hn.1, legible_of_plain h width level b .shown hn.2⟩
  | .delete target _, _, hn => by
    rw [ValuePrinter.Legible]
    exact legible_of_plain h width level target .shown hn
  | .call callee args _, _, hn => by
    rw [ValuePrinter.Legible]
    exact ⟨legibleAll_of_plain h width level args hn.2,
      legible_of_plain h width level callee .shown hn.1⟩
  | .objectLiteral entries _, _, hn => by
    rw [ValuePrinter.Legible]
    exact legibleEntries_of_plain h width level entries hn
  | .program body _ _, _, hn => by
    rw [ValuePrinter.Legible]
    exact legibleAll_of_plain h width level body hn
  | .other _ _, _, _ => by
    rw [ValuePrinter.Legible]
    exact .intro
  | .list items, _, hn => by
    rw [ValuePrinter.Legible]
    exact legibleAll_of_plain h width level items hn

/-- Plain nodes in a row are legible. -/
theorem legibleAll_of_plain (h : Heap) (width level : Int) :
    ∀ ns : List Node, Node.PlainAll ns → (h.printer width).LegibleAll level ns
  | [], _ => .intro
  | n :: ns, hn => by
    rw [ValuePrinter.LegibleAll]
    exact ⟨legible_of_plain h width level n .text hn.1, legibleAll_of_plain h width level ns hn.2⟩

/-- Plain entries are legible. -/
theorem legibleEntries_of_plain (h : Heap) (width level : Int) :
    ∀ entries : List (Value × Node), Node.PlainEntries entries →
      (h.printer width).LegibleEntries level entries
  | [], _ => .intro
  | (name, n) :: rest, hn => by
    rw [ValuePrinter.LegibleEntries]
    obtain ⟨⟨s, rfl⟩, hplain, hrest⟩ := hn
    exact ⟨h.slotName_str width s, legible_of_plain h width level n .shown hplain,
      legibleEntries_of_plain h width level rest hrest⟩

end

/-- A report can show a node exactly when the node is legible. -/
theorem exists_placeText (h : Heap) (n : Node) :
    (∃ s, Runner.placeText h n = .ok s) ↔ (h.printer 2).Legible 0 .shown n := by
  rw [← ValuePrinter.prints_renderNode (h.printer 2) 2 0 n .shown]
  exact ValuePrinter.exists_text

end Heap

/-! ## Reports -/

/-- The node at which a report would be made, if there is one, can be shown. -/
def Machine.Reportable (m : Machine) : Prop :=
  ∀ node, m.current = some node → (m.heap.printer 2).Legible 0 .shown node

namespace Runner

/-- The report of a fault can be made exactly where the current node can be shown. -/
theorem exists_reportOf (fault : Fault) (message : Option String) (m : Machine) :
    (∃ text, reportOf fault message m
      = .ok ⟨.failure fault.kind text (m.current.bind Node.loc), some fault⟩) ↔ m.Reportable := by
  unfold reportOf Machine.Reportable
  cases m.current with
  | none => exact ⟨fun _ _ hn => (nomatch hn), fun _ => ⟨_, rfl⟩⟩
  | some node =>
    simp only [Option.some.injEq, forall_eq', ← Heap.exists_placeText]
    cases placeText m.heap node with
    | ok place => exact ⟨fun _ => ⟨place, rfl⟩, fun _ => ⟨_, rfl⟩⟩
    | error failure => exact ⟨fun ⟨_, ht⟩ => (nomatch ht), fun ⟨_, ht⟩ => (nomatch ht)⟩

/-- Where the current node cannot be shown, there is no report. -/
theorem exists_reportOf_error (fault : Fault) (message : Option String) {m : Machine}
    (hm : ¬m.Reportable) : ∃ failure, reportOf fault message m = .error failure := by
  cases hr : reportOf fault message m with
  | error failure => exact ⟨failure, rfl⟩
  | ok r =>
    refine (hm ((exists_reportOf fault message m).mp ?_)).elim
    unfold reportOf at hr ⊢
    cases hc : m.current with
    | none => exact ⟨_, rfl⟩
    | some node =>
      simp only [hc] at hr ⊢
      cases hp : placeText m.heap node with
      | ok place => exact ⟨_, rfl⟩
      | error failure => rw [hp] at hr; cases hr

/-- What a runner reports, and when. A value is reported with nothing else. A fault that makes the
host leave passes, and so does the end of a run that asks the host for what is not described. Every
other fault is reported, as what it is, exactly where the current node can be shown; where it
cannot, the failure to show it passes in the place of the report. -/
theorem execute_reports_iff_reportable (tree : Value) (m : Machine) :
    match on (attempt tree) m with
    | (.ok value, m') => on (execute tree) m = (.ok ⟨.success value, none⟩, m')
    | (.error (.outside detour), m') => on (execute tree) m = (.error (.outside detour), m')
    | (.error (.fault fault), m') =>
      (fault.kind = .hostExit → on (execute tree) m = (.error (.fault fault), m'))
        ∧ (fault.kind ≠ .hostExit →
          ((∃ text, on (execute tree) m
              = (.ok ⟨.failure fault.kind text (m'.current.bind Node.loc), some fault⟩, m'))
            ↔ m'.Reportable)
          ∧ (¬m'.Reportable → ∃ failure,
              on (execute tree) m = (.error (.fault (.unprintable failure)), m'))) := by
  rw [on_execute]
  rcases hstop : on (attempt tree) m with ⟨e | value, m'⟩
  · cases e with
    | outside detour => rfl
    | fault fault =>
      obtain ⟨message, hmessage⟩ := exists_message_of_attempt hstop
      dsimp only
      rw [on_report hmessage]
      -- A fault that makes the host leave passes before any report is tried.
      refine ⟨fun hexit => if_pos hexit, fun hstay => ?_⟩
      rw [if_neg hstay]
      refine ⟨?_, fun hm => ?_⟩
      · rw [← exists_reportOf fault message m']
        refine exists_congr fun text => ?_
        cases reportOf fault message m' <;> simp [Run.ofPrintedResult]
      · obtain ⟨failure, hfailure⟩ := exists_reportOf_error fault message hm
        exact ⟨failure, by rw [hfailure]; rfl⟩
  · rfl

/-- A program that binds the number `5` as an identifier, passes it to a function, and uses the
answer as the base of a resolver that has no handler. -/
def numberedArgument : Node :=
  .program
    [.assign (.identifier (.int 5) none) (.literal (.int 1) none) none,
      .chain (.call (.identifier (.str "is_frozen") none) [.identifier (.int 5) none] none)
        (.objectLiteral [] none) none]
    false none

/-- A runner that has been set up, with that program. -/
def withNumberedArgument : Machine :=
  let m := (on (start {}) Machine.blank).2
  { m with heap := (m.heap.alloc (.node numberedArgument)).2 }

/-- The program fails with a fault of the language, but is not reported: the argument of the call in
the node that failed is an identifier that is no text, so showing the node is a fault that passes.
-/
theorem numbered_argument_is_not_reported :
    Stop.kindOf? (on (attempt (.object 12)) withNumberedArgument).1 = some .notInvocable
      ∧ Stop.kindOf? (on (execute (.object 12)) withNumberedArgument).1 = some .typeError := by
  decide +kernel

end Runner

end ChainScript
