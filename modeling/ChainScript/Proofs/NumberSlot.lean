import ChainScript.Proofs.FreshObject
import ChainScript.Proofs.Legible
import ChainScript.Proofs.Prototype
import ChainScript.Proofs.Reading
import ChainScript.Proofs.Spelling
import ChainScript.Runner

/-!
# The slot of a number

A number can be written as a text or carry a typed value. As an expression it denotes the number
either way. As the name of a property it denotes the value that it carries, but the text where it
has nothing else, and a text names another slot than the number that it spells. So the two ways of
reading a number agree just for typed numbers (`Tree.nameValue_of_number`), and in `{n: v}[n]` a
typed number finds the value that was put there, while a number that is only text finds nothing.

The record of the literal is made before `v` is evaluated. It is as it was when the value is put
into it, because nothing leads to it.
-/

namespace ChainScript

open Run (on)

namespace Value

/-- A number of any type that is equal to itself. Truth values are numbers. -/
def IsNumber : Value → Prop
  | .bool _ | .int _ => True
  | .float x => x ≠ .nan
  | _ => False

/-- A number names no object. -/
theorem IsNumber.plain {v : Value} (hv : v.IsNumber) : v.Plain := by
  cases v with
  | bool b => trivial
  | int i => trivial
  | float x => trivial
  | _ => exact hv.elim

end Value

namespace Tree

variable {self : Value} {entries : List (Value × Tree)}

/-- A number denotes the literal of the number that it is read as. -/
theorem exists_number_of_toNode {node : Node} (htag : tag? entries = some "number")
    (hnode : toNode (.dict self entries) = .ok node) :
    ∃ u, node = .literal u (location? entries) ∧ number self entries = .ok u := by
  rw [toNode_dict, dictNode, htag] at hnode
  cases hu : number self entries with
  | error e =>
    simp only [hu] at hnode
    cases hnode
  | ok u =>
    simp only [hu] at hnode
    cases hnode
    exact ⟨u, rfl, rfl⟩

/-- A number names the value that it carries, and otherwise its text, while it is read as an integer
or a floating-point number. -/
theorem nameValue_of_number {u : Value} (htag : tag? entries = some "number")
    (hu : number self entries = .ok u) :
    (∃ t, field? entries "value" = some t ∧ u = t.toValue ∧ nameValue (.dict self entries) = .ok u) ∨
      (field? entries "value" = none ∧ ((∃ i, u = .int i) ∨ ∃ x, u = .float x) ∧
        ∃ s, nameValue (.dict self entries) = .ok (.str s)) := by
  rw [nameValue_number htag]
  unfold number at hu
  cases hvalue : field? entries "value" with
  | some t =>
    rw [hvalue] at hu
    cases hu
    exact .inl ⟨t, rfl, rfl, rfl⟩
  | none =>
    rw [hvalue] at hu
    dsimp only at hu ⊢
    split at hu
    · rename_i s htext
      have hname : textName self entries = .ok (.str s) := by rw [textName, htext]
      refine .inr ⟨rfl, ?_, s, hname⟩
      split at hu
      · cases hu
        exact .inl ⟨_, rfl⟩
      · cases hu
        exact .inr ⟨_, rfl⟩
      · cases hu
    · cases hu

end Tree

/-- A text names another slot than a number. -/
theorem Key.ofValue_str_ne {u : Value} (hu : (∃ i, u = .int i) ∨ ∃ x, u = .float x) (s : String) :
    Key.ofValue (.str s) ≠ Key.ofValue u := by
  rcases hu with ⟨i, rfl⟩ | ⟨x, rfl⟩
  · intro hkey
    cases hkey
  · unfold Key.ofValue Key.ofFloat
    intro hkey
    dsimp only at hkey
    split at hkey
    · cases hkey
    · cases hkey

/-! ## The slot of a record that was just made -/

namespace Object

/-- The record of an object literal as it is made. -/
def emptyRecord : Object := .record .plain .empty none false

/-- The record of an object literal with one entry. -/
def recordOf (name x : Value) : Object :=
  .record .plain (Slots.put .empty (.ofValue name) name x) none false

end Object

/-- Visiting a node makes it the current one. -/
theorem Run.on_visit (n : Node) (m : Machine) :
    on (visit n) m = (.ok (), { m with current := some n }) := rfl

/-- The machine on which the value in an object literal is evaluated first: the literal is the
current node, and its record has been made. -/
def Machine.entering (m : Machine) (literal : Node) : Machine :=
  making { m with current := some literal } .emptyRecord

namespace Eval

variable {call : Caller} {env w u x : Value} {v : Node} {m m' : Machine} {e : Stop}
  {made spelled loc : Option Location}

/-- What stops the value of the only entry stops the object literal. -/
theorem on_objectLiteral_stop
    (hv : on (eval call env v) (m.entering (.objectLiteral [(w, v)] made)) = (.error e, m')) :
    on (eval call env (.objectLiteral [(w, v)] made)) m = (.error e, m') := by
  rw [eval, Run.on_bind_ok (Run.on_visit _ _), Run.on_bind_ok (Run.on_alloc _ _), evalEntries]
  exact Run.on_bind_error (Run.on_bind_error hv)

/-- The record of an object literal with one entry, which is still empty when the value of the entry
has been evaluated, holds this value in the end. -/
theorem on_objectLiteral_single (hw : w.Plain)
    (hv : on (eval call env v) (m.entering (.objectLiteral [(w, v)] made)) = (.ok x, m'))
    (hkept : m'.heap.object? m.heap.size = some .emptyRecord) :
    on (eval call env (.objectLiteral [(w, v)] made)) m = (.ok (.object m.heap.size),
      { m' with heap := m'.heap.put m.heap.size (.recordOf w x) }) := by
  have hprimitive := m'.heap.isPrimitive_of_plain hw
  have hkey : on (Run.keyOf w) m' = (.ok (.ofValue w), m') := by
    rw [Run.on_keyOf, Run.keyOfResult, Heap.keyOf?_of_isPrimitive hprimitive]
  have hwrite := Ordinary.on_writeOwn m.heap.size (.ofValue w) w x m'
  rw [hkept, Object.emptyRecord] at hwrite
  have hentries : on (evalEntries call env (.object m.heap.size) [(w, v)])
      (m.entering (.objectLiteral [(w, v)] made)) = (.ok (),
        { m' with heap := m'.heap.put m.heap.size (.recordOf w x) }) := by
    rw [evalEntries, Run.on_bind_ok hv, Run.on_bind_ok (Ordinary.on_propertyKey hprimitive),
      Run.on_bind_ok hkey, Run.on_bind_ok hwrite, evalEntries]
    rfl
  rw [eval, Run.on_bind_ok (Run.on_visit _ _), Run.on_bind_ok (Run.on_alloc _ _)]
  exact Run.on_bind_ok hentries

end Eval

/-- An access under a plain key can be noted where it is known whether accesses are traced. -/
theorem Machine.unnotable?_of_plain {m : Machine} {key : Value} (hkey : key.Plain) :
    m.unnotable? key
      = if m.traces?.isSome then none else some (.badFlag "VPROP_DEBUG" m.debugVariable) := by
  obtain ⟨shown, hshown⟩ := m.heap.inspect_plain hkey
  rw [unnotable?, hshown]

section

variable {m : Machine} {id : ObjectId} {kind : RecordClass} {slots : Slots} {frozen : Bool} {u : Value}
  (ho : m.heap.object? id = some (.record kind slots none frozen)) (hu : u.Plain)
  (hheld : ∀ x, Slots.value? slots (.ofValue u) = some x → Ordinary.accessor? m.heap x = none)
  (call : Caller)
include ho hu hheld

/-- A slot of a record without a parent has what the record holds there, unless that is an accessor.
-/
theorem Ordinary.on_get_own (this : Value) :
    on (get call (.object id) u this) m
      = (.ok ((Slots.value? slots (.ofValue u)).getD .undefined), m) := by
  have hrecord : m.heap.isRecord (.object id) = true := by simp [Heap.isRecord, Heap.objectOf?, ho]
  have hkey := Heap.keyOf?_of_isPrimitive (m.heap.isPrimitive_of_plain hu)
  have hlink : m.heap.link? id = some (slots, none) := by simp [Heap.link?, ho]
  rw [Prototype.on_get hrecord hkey, Heap.nearest?_of_parentless hlink]
  cases hvalue : Slots.value? slots (.ofValue u) with
  | none => rfl
  | some x =>
    dsimp only
    rw [hheld x hvalue]
    rfl

/-- Reading a slot of a record without a parent gives what stands in the slot. -/
theorem Dispatch.on_read_own (htraces : m.traces?.isSome = true) (strict : Bool) :
    ∃ m', on (read call (.slot (.object id) u strict)) m
      = (.ok ((Slots.value? slots (.ofValue u)).getD .undefined), m') := by
  have hread : read call (.slot (.object id) u strict) = (do
      let shown ← Run.inspect u
      Run.note (pure ["read", "ordinary", shown])
      Ordinary.get call (.object id) u (.object id)) := by
    show noteOrdinary "read" u >>= _ = _
    rw [noteOrdinary, bind_assoc]
    rfl
  rw [hread]
  obtain ⟨fault, hfault, -⟩ | ⟨-, m', hm', hon⟩ :=
    Run.on_note_key u (fun shown => ["read", "ordinary", shown])
      (fun _ => Ordinary.get call (.object id) u (.object id)) m
  · rw [Machine.unnotable?_of_plain hu, if_pos htraces] at hfault
    cases hfault
  · rw [← hm'.heap_eq] at ho hheld
    exact ⟨m', hon.trans (Ordinary.on_get_own ho hu hheld call _)⟩

end

namespace Eval

variable {call : Caller} {env w u x : Value} {v : Node} {m m' : Machine} {e : Stop}
  {made spelled loc : Option Location}

/-- What stops the value in an access to a slot of `{w: v}` stops the access. -/
theorem on_lookup_stop
    (hv : on (eval call env v) (m.entering (.objectLiteral [(w, v)] made)) = (.error e, m')) :
    on (eval call env (.index (.objectLiteral [(w, v)] made) (.literal u spelled) loc)) m
      = (.error e, m') := by
  rw [eval, Run.on_bind_ok (Run.on_visit _ _), indexReference, bind_assoc]
  exact Run.on_bind_error (on_objectLiteral_stop hv)

/-- An object that is no accessor is none either after a record has been replaced by another one. -/
theorem accessor?_put_record {h : Heap} {id : ObjectId} {kind : RecordClass} {slots slots' : Slots}
    (ho : h.object? id = some (.record kind slots none false))
    (hx : Ordinary.accessor? h x = none) :
    Ordinary.accessor? (h.put id (.record kind slots' none false)) x = none := by
  cases x with
  | object j =>
    by_cases hj : j = id
    · subst hj
      simp [Ordinary.accessor?, Heap.objectOf?, Heap.object?_put_self ho]
    · have hsame : (h.put id (.record kind slots' none false)).object? j = h.object? j := by
        rw [Heap.object?_put, if_neg hj]
      rwa [Ordinary.accessor?, Heap.objectOf?, hsame]
  | _ => rfl

/-- The machine on which the slot of an object literal with one entry is read. -/
def filled (m m' : Machine) (w x : Value) (place : Node) : Machine :=
  { m' with
    heap := m'.heap.put m.heap.size (.recordOf w x)
    current := some place }

section

variable (hw : w.Plain) (hu : u.Plain)
  (hv : on (eval call env v) (m.entering (.objectLiteral [(w, v)] made)) = (.ok x, m'))
  (hkept : m'.heap.object? m.heap.size = some .emptyRecord)
include hw hu hv hkept

/-- In `{w: v}[u]` the slot that `u` names is read from the record that holds the value. -/
theorem on_lookup :
    let place := Node.index (.objectLiteral [(w, v)] made) (.literal u spelled) loc
    on (eval call env place) m
      = on (Dispatch.read call (.slot (.object m.heap.size) u m'.strict)) (filled m m' w x place) := by
  intro place
  let holding : Machine := { m' with heap := m'.heap.put m.heap.size (.recordOf w x) }
  let named : Machine := { holding with current := some (.literal u spelled) }
  -- The literal makes itself the current node before anything looks which one that is.
  have hliteral : on (eval call env (.objectLiteral [(w, v)] made)) { m with current := some place }
      = (.ok (.object m.heap.size), holding) := on_objectLiteral_single hw hv hkept
  have hspelled : on (eval call env (.literal u spelled)) holding = (.ok u, named) := by
    rw [eval]
    rfl
  have hprimitive := named.heap.isPrimitive_of_plain hu
  have href : on (indexReference (eval call env (.objectLiteral [(w, v)] made))
      (eval call env (.literal u spelled))) { m with current := some place }
        = (.ok (.slot (.object m.heap.size) u m'.strict), named) := by
    rw [indexReference, Run.on_bind_ok hliteral, Ordinary.toObject_eq rfl, pure_bind,
      Run.on_bind_ok hspelled, Run.on_bind_ok (Ordinary.on_propertyKey hprimitive),
      Run.on_bind_ok (Run.on_get _)]
    exact Reference.on_property rfl hprimitive m'.strict
  -- The access is the current node again when the slot is read.
  have hagain : on (Run.visit place) named = (.ok (), filled m m' w x place) := rfl
  rw [eval, Run.on_bind_ok (Run.on_visit _ _), Run.on_bind_ok href, readAt, Run.on_bind_ok hagain]

/-- The value is found if `w` and `u` name the same slot, and otherwise there is none. -/
theorem on_lookup_value (hx : Ordinary.accessor? m'.heap x = none) (htraces : m'.traces?.isSome = true) :
    ∃ m'', on (eval call env (.index (.objectLiteral [(w, v)] made) (.literal u spelled) loc)) m
      = (.ok (if Key.ofValue w = Key.ofValue u then x else .undefined), m'') := by
  let place := Node.index (.objectLiteral [(w, v)] made) (.literal u spelled) loc
  have hrecord : (filled m m' w x place).heap.object? m.heap.size = some (.recordOf w x) :=
    Heap.object?_put_self hkept _
  have hslot : Slots.value? (Slots.put .empty (.ofValue w) w x) (.ofValue u)
      = if Key.ofValue w = Key.ofValue u then some x else none := by
    rw [Slots.value?_put]
    exact if_congr eq_comm rfl rfl
  have hheld : ∀ y, Slots.value? (Slots.put .empty (.ofValue w) w x) (.ofValue u) = some y →
      Ordinary.accessor? (filled m m' w x place).heap y = none := by
    -- What the record holds is the value, which was no accessor before the record was filled.
    intro y hy
    rw [hslot] at hy
    split at hy
    · cases hy
      exact accessor?_put_record hkept hx
    · cases hy
  obtain ⟨m'', hread⟩ := Dispatch.on_read_own hrecord hu hheld call htraces m'.strict
  refine ⟨m'', ?_⟩
  rw [on_lookup hw hu hv hkept, hread, hslot]
  split <;> rfl

/-- Where it is not known whether accesses are traced, the slot cannot be read. -/
theorem on_lookup_untold (htraces : m'.traces? = none) :
    ∃ m'', on (eval call env (.index (.objectLiteral [(w, v)] made) (.literal u spelled) loc)) m
      = (.error (.fault (.badFlag "VPROP_DEBUG" m'.debugVariable)), m'') := by
  let place := Node.index (.objectLiteral [(w, v)] made) (.literal u spelled) loc
  have hfault : (filled m m' w x place).unnotable? u
      = some (.badFlag "VPROP_DEBUG" m'.debugVariable) := by
    rw [Machine.unnotable?_of_plain hu]
    show (if m'.traces?.isSome = true then none else _) = _
    rw [htraces]
    rfl
  refine ⟨filled m m' w x place, ?_⟩
  rw [on_lookup hw hu hv hkept, Dispatch.on_read_unnotable hfault]

end

/-- The record of an object literal is still empty when the value of its only entry has been
evaluated, because nothing that is done in between can name it. -/
theorem record_kept {depth : Nat} {literal : Node} (hm : m.Closed) (henv : m.heap.Holds env)
    (hliteral : m.heap.Holds literal) (hv : m.heap.Holds v) :
    (on (eval (invoke depth) env v) (m.entering literal)).2.heap.object? m.heap.size
      = some .emptyRecord := by
  refine (hm.visit hliteral).fresh_kept (fun σ hσ => ?_) _
  have hfollows := follows_eval (callerFollows_guarded σ .none depth) env v
  rwa [henv σ hσ, hv σ hσ] at hfollows

/-- An access to a slot of an object literal ends as the value in the literal does. If the slot is
the one of the value, the value is found there, and otherwise there is none. -/
structure Finds (call : Caller) (env : Value) (place literal v : Node) (found : Bool) (m : Machine) :
    Prop where
  stop : ∀ {e m'}, on (eval call env v) (m.entering literal) = (.error e, m') →
    on (eval call env place) m = (.error e, m')
  value : ∀ {x m'}, on (eval call env v) (m.entering literal) = (.ok x, m') →
    Ordinary.accessor? m'.heap x = none → m'.traces?.isSome = true →
      ∃ m'', on (eval call env place) m = (.ok (if found then x else .undefined), m'')
  /-- Every access asks first whether it is traced. -/
  untold : ∀ {x m'}, on (eval call env v) (m.entering literal) = (.ok x, m') → m'.traces? = none →
    ∃ m'', on (eval call env place) m
      = (.error (.fault (.badFlag "VPROP_DEBUG" m'.debugVariable)), m'')

end Eval

namespace Heap

variable {h : Heap} {w u : Value} {n : Node} {made spelled loc : Option Location}

/-- A heap that holds `{w: n}[u]` holds the literal in it. -/
theorem Holds.literal
    (hh : h.Holds (Node.index (.objectLiteral [(w, n)] made) (.literal u spelled) loc)) :
    h.Holds (Node.objectLiteral [(w, n)] made) := by
  intro σ hσ
  have hplace := hh σ hσ
  rw [Node.rename_index] at hplace
  exact (Node.index.inj hplace).1

/-- A heap that holds an object literal holds the value in it. -/
theorem Holds.entry (hh : h.Holds (Node.objectLiteral [(w, n)] made)) : h.Holds n := by
  intro σ hσ
  have hliteral := hh σ hσ
  rw [Node.rename_objectLiteral] at hliteral
  have hentries := (Node.objectLiteral.inj hliteral).1
  exact (Prod.mk.inj (List.cons.inj hentries).1).2

end Heap

/-- Where all is held, `{w: v}[u]` finds the value of `v` if `w` and `u` name the same slot, and
otherwise nothing. -/
theorem Eval.finds {depth : Nat} {env w u : Value} {v : Node} {made spelled loc : Option Location}
    {m : Machine} {found : Bool} (hw : w.Plain) (hu : u.Plain)
    (hfound : Key.ofValue w = Key.ofValue u ↔ found = true) (hm : m.Closed) (henv : m.heap.Holds env)
    (hh : m.heap.Holds (Node.index (.objectLiteral [(w, v)] made) (.literal u spelled) loc)) :
    Finds (invoke depth) env (.index (.objectLiteral [(w, v)] made) (.literal u spelled) loc)
      (.objectLiteral [(w, v)] made) v found m := by
  have hkept : (on (eval (invoke depth) env v) (m.entering (.objectLiteral [(w, v)] made))).2.heap.object?
      m.heap.size = some .emptyRecord :=
    record_kept hm henv hh.literal hh.literal.entry
  refine ⟨fun hv => on_lookup_stop hv, fun hv hx htraces => ?_, fun hv htraces => ?_⟩
  · rw [hv] at hkept
    simp only [← hfound]
    exact on_lookup_value hw hu hv hkept hx htraces
  · rw [hv] at hkept
    exact on_lookup_untold hw hu hv hkept htraces

namespace Tree

/-- Trees of the form `{n: v}[n]`, with the places of the literal and of the access. -/
inductive OwnSlot (n v : Tree) : Option Location → Option Location → Tree → Prop
  | index {self object property : Value} {entries members parts : List (Value × Tree)}
    (htag : tag? entries = some "index") (hobject : tag? members = some "object")
    (hproperty : tag? parts = some "property")
    (hindex : operandTrees entries = .ok [.dict object members, n])
    (hmembers : operandTrees members = .ok [.dict property parts])
    (hparts : operandTrees parts = .ok [n, v]) :
    OwnSlot n v (location? members) (location? entries) (.dict self entries)

/-- In `{n: v}[n]` the name of `n` is the key of the only entry, and `n` itself is the key of the
access. -/
theorem toNode_ownSlot {n v t : Tree} {made loc : Option Location} (ht : OwnSlot n v made loc t)
    {w : Value} {key value : Node} (hname : nameValue n = .ok w) (hkey : toNode n = .ok key)
    (hvalue : toNode v = .ok value) :
    toNode t = .ok (.index (.objectLiteral [(w, value)] made) key loc) := by
  obtain ⟨htag, hobject, hproperty, hindex, hmembers, hparts⟩ := ht
  rename_i self object property entries members parts
  have hpair : propertyNode toNode (.dict property parts) = .ok (w, value) := by
    rw [propertyNode, propertyTrees, if_pos hproperty, hparts]
    show (nameValue n >>= fun name => toNode v >>= fun node => pure (name, node)) = _
    rw [hname, hvalue]
    rfl
  have hliteral : toNode (.dict object members)
      = .ok (.objectLiteral [(w, value)] (location? members)) := by
    rw [toNode_dict, dictNode, hobject]
    show objectNode toNode members = _
    rw [objectNode, hmembers]
    show (List.mapM (propertyNode toNode) [.dict property parts] >>= _) = _
    rw [List.mapM_cons, hpair]
    rfl
  rw [toNode_dict, dictNode, htag]
  show binaryNode toNode "index" (.index · · (location? entries)) entries = _
  rw [binaryNode, hindex]
  show (toNode (.dict object members) >>= fun a => toNode n >>= fun b =>
    pure (Node.index a b (location? entries))) = _
  rw [hliteral, hkey]
  rfl

/-- The name of a member is the name of its second operand. -/
theorem toNode_member {self : Value} {entries : List (Value × Tree)} {obj n : Tree} {w : Value}
    {place : Node} (htag : tag? entries = some "member") (hops : operandTrees entries = .ok [obj, n])
    (hobj : toNode obj = .ok place) (hname : nameValue n = .ok w) :
    toNode (.dict self entries) = .ok (.member place w (location? entries)) := by
  rw [toNode_dict, dictNode, htag]
  show memberNode toNode entries = _
  rw [memberNode, hops]
  show (toNode obj >>= fun a => nameValue n >>= fun name =>
    pure (Node.member a name (location? entries))) = _
  rw [hobj, hname]
  rfl

/-- The name of a number names the slot that the number names as a key if the number carries a
value, and another slot if it is only text. -/
theorem exists_name_of_number {self u : Value} {entries : List (Value × Tree)}
    (htag : tag? entries = some "number") (hu : number self entries = .ok u)
    (hnumber : ∀ t, field? entries "value" = some t → t.toValue.IsNumber) :
    ∃ w, nameValue (.dict self entries) = .ok w ∧ w.Plain ∧ u.Plain
      ∧ (Key.ofValue w = Key.ofValue u ↔ (field? entries "value").isSome = true) := by
  obtain ⟨t, hvalue, rfl, hname⟩ | ⟨hvalue, hread, s, hname⟩ := nameValue_of_number htag hu
  · have hplain := (hnumber t hvalue).plain
    refine ⟨t.toValue, hname, hplain, hplain, iff_of_true rfl ?_⟩
    rw [hvalue]
    rfl
  · have hplain : u.Plain := by
      obtain ⟨i, rfl⟩ | ⟨x, rfl⟩ := hread <;> trivial
    refine ⟨.str s, hname, trivial, hplain, iff_of_false (Key.ofValue_str_ne hread s) ?_⟩
    rw [hvalue]
    exact Bool.false_ne_true

/-- A number that can be read as an expression names, as the key of an entry or the name of a
member, the slot that it names as an expression just if it carries a value. So `{n: v}[n]` finds the
value of `v` where `n` carries a value, and nothing where `n` is only text. -/
theorem number_names_its_slot_iff_typed {self : Value} {entries : List (Value × Tree)} {key : Node}
    (htag : tag? entries = some "number") (hkey : toNode (.dict self entries) = .ok key)
    (hnumber : ∀ t, field? entries "value" = some t → t.toValue.IsNumber) :
    ∃ u w, key = .literal u (location? entries) ∧ nameValue (.dict self entries) = .ok w
      ∧ (Key.ofValue w = Key.ofValue u ↔ (field? entries "value").isSome = true)
      ∧ (∀ {self' : Value} {members : List (Value × Tree)} {obj : Tree} {place : Node},
        tag? members = some "member" → operandTrees members = .ok [obj, .dict self entries] →
          toNode obj = .ok place →
            toNode (.dict self' members) = .ok (.member place w (location? members)))
      ∧ ∀ {v t : Tree} {made loc : Option Location} {value : Node},
        OwnSlot (.dict self entries) v made loc t → toNode v = .ok value →
          toNode t = .ok (.index (.objectLiteral [(w, value)] made) key loc)
            ∧ ∀ {depth : Nat} {env : Value} {m : Machine}, m.Closed → m.heap.Holds env →
              m.heap.Holds (Node.index (.objectLiteral [(w, value)] made) key loc) →
                Eval.Finds (invoke depth) env (.index (.objectLiteral [(w, value)] made) key loc)
                  (.objectLiteral [(w, value)] made) value (field? entries "value").isSome m := by
  obtain ⟨u, rfl, hu⟩ := exists_number_of_toNode htag hkey
  obtain ⟨w, hname, hw, hplain, hslot⟩ := exists_name_of_number htag hu hnumber
  refine ⟨u, w, rfl, hname, hslot, fun hmember hops hobj => ?_, fun ht hv => ?_⟩
  · exact toNode_member hmember hops hobj hname
  · exact ⟨toNode_ownSlot ht hname hkey hv,
      fun hm henv hh => Eval.finds hw hplain hslot hm henv hh⟩

/-! ## Two spellings of a number -/

/-- The tree of the text `v`. -/
def textTree : Tree := tagged "string" [("text", .leaf (.str "v"))]

/-- The tree of a text denotes the literal. -/
theorem toNode_textTree : toNode textTree = .ok (.literal (.str "v") none) := by
  unfold textTree tagged
  rw [toNode_dict]
  rfl

/-- The tree of `{n: 'v'}[n]`. -/
def ownSlotTree (n : Tree) : Tree :=
  let property := tagged "property" [("children", .list .null [n, textTree])]
  tagged "index" [("children", .list .null
    [tagged "object" [("children", .list .null [property])], n])]

/-- The tree that reads a slot of an object literal reads it. -/
theorem ownSlot_ownSlotTree (n : Tree) : OwnSlot n textTree none none (ownSlotTree n) := by
  have hslot : OwnSlot n textTree (location? _) (location? _) (ownSlotTree n) :=
    .index rfl rfl rfl rfl rfl rfl
  exact hslot

/-- What `{w: 'v'}[1]` denotes. -/
def lookupOne (w : Value) : Node :=
  .index (.objectLiteral [(w, .literal (.str "v") none)] none) (.literal (.int 1) none) none

/-- The number `1` as a value that the tree carries. -/
def typedOne : List (Value × Tree) :=
  [(.str "tag", .leaf (.str "number")), (.str "value", .leaf (.int 1))]

/-- A number that is given as a value denotes the literal. -/
theorem toNode_typedOne : toNode (.dict .null typedOne) = .ok (.literal (.int 1) none) := by
  rw [toNode_dict]
  rfl

/-- The number `1` as a text. -/
def spelledOne : List (Value × Tree) :=
  [(.str "tag", .leaf (.str "number")), (.str "text", .leaf (.str "1"))]

/-- So does a number that is given as a text. -/
theorem toNode_spelledOne : toNode (.dict .null spelledOne) = .ok (.literal (.int 1) none) := by
  rw [toNode_dict]
  rfl

/-- `{1: 'v'}[1]` gives `'v'` where the number is carried as a value. -/
theorem typed_one_finds_its_slot :
    (∀ t, field? typedOne "value" = some t → t.toValue.IsNumber)
      ∧ toNode (ownSlotTree (.dict .null typedOne)) = .ok (lookupOne (.int 1))
      ∧ ∃ m', on (Eval.eval Runner.call (.object Machine.blank.globals) (lookupOne (.int 1)))
        Machine.blank = (.ok (.str "v"), m') := by
  have hnumber : ∀ t, field? typedOne "value" = some t → t.toValue.IsNumber := by
    intro t ht
    cases ht
    trivial
  obtain ⟨u, w, hu, hname, -, -, hfinds⟩ :=
    number_names_its_slot_iff_typed rfl toNode_typedOne hnumber
  cases hname
  obtain ⟨hplace, hends⟩ := hfinds (ownSlot_ownSlotTree _) toNode_textTree
  have hglobals : Machine.blank.heap.Holds (Value.object Machine.blank.globals) :=
    Heap.holds_object (by decide)
  have hfound : Eval.Finds Runner.call _ _ _ _ _ Machine.blank :=
    hends Machine.closed_blank hglobals fun _ _ => rfl
  exact ⟨hnumber, hplace, hfound.value rfl rfl rfl⟩

/-- `{1: 'v'}[1]` gives nothing where the number is only text: its name is the text `1`, which names
another slot than the number. -/
theorem spelled_one_misses_its_slot :
    toNode (.dict .null spelledOne) = .ok (.literal (.int 1) none)
      ∧ nameValue (.dict .null spelledOne) = .ok (.str "1")
      ∧ Key.ofValue (.str "1") ≠ Key.ofValue (.int 1)
      ∧ toNode (ownSlotTree (.dict .null spelledOne)) = .ok (lookupOne (.str "1"))
      ∧ ∃ m', on (Eval.eval Runner.call (.object Machine.blank.globals) (lookupOne (.str "1")))
        Machine.blank = (.ok .undefined, m') := by
  have hslot : Key.ofValue (.str "1") ≠ Key.ofValue (.int 1) := by decide
  have hname : nameValue (.dict .null spelledOne) = .ok (.str "1") := rfl
  have hplace := toNode_ownSlot (ownSlot_ownSlotTree _) hname toNode_spelledOne toNode_textTree
  have hglobals : Machine.blank.heap.Holds (Value.object Machine.blank.globals) :=
    Heap.holds_object (by decide)
  have hmissed : Eval.Finds Runner.call (.object Machine.blank.globals) (lookupOne (.str "1"))
      (.objectLiteral [(.str "1", .literal (.str "v") none)] none) (.literal (.str "v") none) false
      Machine.blank :=
    Eval.finds trivial trivial (iff_of_false hslot Bool.false_ne_true) Machine.closed_blank hglobals
      fun _ _ => rfl
  exact ⟨toNode_spelledOne, hname, hslot, hplace, hmissed.value rfl rfl rfl⟩

end Tree

end ChainScript
