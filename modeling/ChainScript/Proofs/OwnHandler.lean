import ChainScript.Access.Handler
import ChainScript.Proofs.Action

/-!
# Handlers of a resolver's own

The search for the handler that a resolver has of its own is a look at the heap, followed by making
a method where the resolver's type serves the access. `Resolver.offered` is that look, and
`Resolver.on_selfAttached` says what the search comes to in terms of it. Later proofs cite this
equation and do not open the search again.
-/

namespace ChainScript

open Run (on)

namespace Given

/-- The function that a class has for a part, which is null if it has none. -/
def partOf (h : Heap) (part : ClassPart) : Value := (h.classParts.find? part).getD .null

/-- What is given on a heap: a function of a class is a value there. -/
def settled (h : Heap) : Given → Given
  | .part p => .value (partOf h p)
  | given => given

/-- What is given comes to the same when it is settled first. -/
theorem on_toValue_settled (given : Given) (m : Machine) :
    on (given.settled m.heap).toValue m = on given.toValue m := by
  cases given <;> rfl

/-- What is settled is no function of a class but a value. -/
theorem settled_ne_part (h : Heap) (given : Given) (part : ClassPart) :
    given.settled h ≠ .part part := by
  cases given <;> exact nofun

end Given

namespace Attribute

/-- What stands under the name of an attribute: what was set on the value, and otherwise what its
type gives it. A method that has nothing under the name shows what was set on its function. -/
def find? (h : Heap) (v : Value) (name : String) : Option Given :=
  match (h.attributes v).find? name with
  | some found => some (.value found)
  | none =>
    match v with
    | .object id =>
      match h.object? id with
      | none => none
      | some o =>
        match o.kept? name with
        | some found => found.map .value
        | none =>
          match o.given? id name with
          | some given => some (given.settled h)
          | none =>
            match o with
            | .method m => ((h.attributes (h.functionOf m)).find? name).map .value
            | _ => none
    | v => (v.given? name).map .value

/-- Reading an attribute finds what stands under its name, and makes it if it is a method. -/
theorem on_get (v : Value) (name : String) (m : Machine) :
    on (get v name) m = match find? m.heap v name with
      | none => (.ok none, m)
      | some given => on (do return some (← given.toValue)) m := by
  rw [get, Run.on_bind, Run.on_heap]
  unfold find?
  dsimp only
  cases (m.heap.attributes v).find? name with
  | some found => rfl
  | none =>
    cases v with
    | object id =>
      dsimp only
      cases m.heap.object? id with
      | none => rfl
      | some o =>
        dsimp only
        cases o.kept? name with
        | some found => cases found <;> rfl
        | none =>
          cases o.given? id name with
          | some given =>
            dsimp only
            rw [Run.on_bind, Run.on_bind, Given.on_toValue_settled]
          | none =>
            cases o with
            | method f =>
              dsimp only
              cases (m.heap.attributes (m.heap.functionOf f)).find? name <;> rfl
            | _ => rfl
    | _ =>
      dsimp only
      cases Value.given? _ name <;> rfl

end Attribute

namespace Resolver

/-- What a resolver offers in the place of a handler of its own, and whether it stands under a
reserved symbol. There the symbol is put into words, which can fail. -/
def offered (h : Heap) (resolver : Value) (kind : AccessKind) : Printed (Option Given × Bool) :=
  match resolver, h.objectOf? resolver with
  | .object id, some (.record c ..) =>
    match h.owner? (.object kind.symbol) id with
    | some owner => do
      let _ ← h.inspect (.object kind.symbol)
      return ((h.ownValue? owner (.object kind.symbol)).map .value, true)
    | none =>
      return (((c.offer kind).given? resolver (.handler (.record c) kind)).map (Given.settled h),
        false)
  | .type c, _ =>
    return (((c.metaOffer kind).given? resolver (.metaHandler c kind)).map (Given.settled h), false)
  | _, _ => return (Attribute.find? h resolver kind.reservedName, false)

/-- What the search comes to for an offered value: null is as good as nothing, what can be called is
the handler, and anything else is a fault. -/
def acceptValue (resolver : Value) (kind : AccessKind) (m : Machine) (bySymbol : Bool) :
    Value → Except Stop (Option Value) × Machine
  | .null => (.ok none, m)
  | f =>
    if m.heap.isCallable f then (.ok (some f), m)
    else (.error (.fault (Fault.arising m.heap (.handlerNotFunction resolver kind bySymbol))), m)

/-- What the search comes to for an offer. A method is made, and serves. -/
def accept (resolver : Value) (kind : AccessKind) (m : Machine) :
    Option Given × Bool → Except Stop (Option Value) × Machine
  | (none, _) => (.ok none, m)
  | (some (.value f), bySymbol) => acceptValue resolver kind m bySymbol f
  | (some (.part p), bySymbol) => acceptValue resolver kind m bySymbol (Given.partOf m.heap p)
  | (some (.method f), _) =>
    (.ok (some (.object m.heap.size)), { m with heap := (m.heap.alloc (.method f)).2 })

/-- An offered value that is not null is accepted if it can be called. -/
theorem accept_value {v : Value} (hv : v ≠ .null) (resolver : Value) (kind : AccessKind) (m : Machine)
    (bySymbol : Bool) :
    accept resolver kind m (some (.value v), bySymbol) =
      if m.heap.isCallable v then (.ok (some v), m)
      else (.error (.fault (Fault.arising m.heap (.handlerNotFunction resolver kind bySymbol))), m) := by
  cases v with
  | null => exact (hv rfl).elim
  | _ => rfl

/-- The offer as the search meets it: a method is made first. -/
def meet : Option Given × Bool → Run (Option Value × Bool)
  | (none, bySymbol) => return (none, bySymbol)
  | (some given, bySymbol) => do return (some (← given.toValue), bySymbol)

/-- What a resolver offers is met, or showing the reserved symbol fails. -/
theorem on_own (resolver : Value) (kind : AccessKind) (m : Machine) :
    on (own resolver kind) m = match offered m.heap resolver kind with
      | .ok offer => on (meet offer) m
      | .error failure => (.error (.fault (Fault.unprintable failure)), m) := by
  -- What is neither a record nor a class offers what stands under the reserved attribute.
  have hattribute : on (do return (← Attribute.get resolver kind.reservedName, false)) m
      = on (meet (Attribute.find? m.heap resolver kind.reservedName, false)) m := by
    rw [Run.on_bind, Attribute.on_get]
    cases Attribute.find? m.heap resolver kind.reservedName with
    | none => rfl
    | some given => cases given <;> rfl
  -- What a class offers is settled on the heap as it is.
  have hgiven : ∀ given? : Option Given, on (match given? with
        | none => return (none, false)
        | some given => do return (some (← given.toValue), false) : Run (Option Value × Bool)) m
      = on (meet (given?.map (Given.settled m.heap), false)) m := by
    intro given?
    cases given? with
    | none => rfl
    | some given => cases given <;> rfl
  have hshown : on (Run.inspect (.object kind.symbol)) m
      = (Run.ofPrintedResult (m.heap.inspect (.object kind.symbol)), m) := by
    rw [Run.inspect, Run.on_bind, Run.on_heap]
    exact Run.on_ofPrinted _ m
  rw [own, Run.on_bind, Run.on_heap]
  cases resolver with
  | object id =>
    simp only [offered, Heap.objectOf?]
    cases m.heap.object? id with
    | none => exact hattribute
    | some o =>
      cases o with
      | record c slots parent frozen =>
        dsimp only
        cases m.heap.owner? (.object kind.symbol) id with
        | none => exact hgiven _
        | some owner =>
          dsimp only
          rw [Run.on_bind, hshown]
          cases m.heap.inspect (.object kind.symbol) with
          | error failure => rfl
          | ok shown => cases m.heap.ownValue? owner (.object kind.symbol) <;> rfl
      | _ => exact hattribute
  | type c => exact hgiven _
  | _ => exact hattribute

/-- What is met is accepted or refused. -/
theorem on_meet_accept (resolver : Value) (kind : AccessKind) (m : Machine)
    (offer : Option Given × Bool) (hown : on (own resolver kind) m = on (meet offer) m) :
    on (selfAttached resolver kind) m = accept resolver kind m offer := by
  obtain ⟨given, bySymbol⟩ := offer
  have hvalue : ∀ v, on (meet (given, bySymbol)) m = (.ok (some v, bySymbol), m) →
      on (selfAttached resolver kind) m = acceptValue resolver kind m bySymbol v := by
    intro v hmade
    rw [selfAttached, Run.on_bind_ok (hown.trans hmade)]
    cases v with
    | null => rfl
    | _ =>
      dsimp only [acceptValue]
      rw [Run.on_bind, Run.on_heap]
      dsimp only
      split <;> rfl
  cases given with
  | none =>
    have hnone : on (meet (none, bySymbol)) m = (.ok (none, bySymbol), m) := rfl
    rw [selfAttached, Run.on_bind_ok (hown.trans hnone)]
    rfl
  | some given =>
    cases given with
    | method f =>
      -- The method was just made, and a method can be called.
      have hmade : on (meet (some (.method f), bySymbol)) m
          = (.ok (some (.object m.heap.size), bySymbol),
              { m with heap := (m.heap.alloc (.method f)).2 }) := rfl
      have hcallable : ((m.heap.alloc (.method f)).2).isCallable (.object m.heap.size) = true := by
        simp [Heap.isCallable, Heap.object?_alloc]
      rw [selfAttached, Run.on_bind_ok (hown.trans hmade)]
      dsimp only
      rw [Run.on_bind, Run.on_heap]
      dsimp only
      rw [if_pos hcallable]
      rfl
    | value v => exact hvalue v rfl
    | part p => exact hvalue (Given.partOf m.heap p) rfl

/-- The search for a resolver's own handler accepts or refuses what the resolver offers. -/
theorem on_selfAttached (resolver : Value) (kind : AccessKind) (m : Machine) :
    on (selfAttached resolver kind) m = match offered m.heap resolver kind with
      | .ok offer => accept resolver kind m offer
      | .error failure => (.error (.fault (Fault.unprintable failure)), m) := by
  have hown := on_own resolver kind m
  cases hoffer : offered m.heap resolver kind with
  | ok offer =>
    rw [hoffer] at hown
    exact on_meet_accept resolver kind m offer hown
  | error failure =>
    rw [hoffer] at hown
    rw [selfAttached, Run.on_bind_error hown]

/-- A resolver without a handler of its own is searched without a trace. -/
theorem eq_of_on_selfAttached_none {resolver : Value} {kind : AccessKind} {m m' : Machine}
    (hnone : on (selfAttached resolver kind) m = (.ok none, m')) : m' = m := by
  rw [on_selfAttached] at hnone
  split at hnone
  · rename_i offer _
    have hvalue : ∀ {v bySymbol}, acceptValue resolver kind m bySymbol v = (.ok none, m') → m' = m := by
      intro v bySymbol hv
      unfold acceptValue at hv
      split at hv
      · exact (congrArg Prod.snd hv).symm
      · split at hv <;> cases hv
    unfold accept at hnone
    split at hnone
    · exact (congrArg Prod.snd hnone).symm
    · exact hvalue hnone
    · exact hvalue hnone
    · cases hnone
  · cases hnone

/-- What is offered is settled. -/
theorem ne_part_of_offered {h : Heap} {resolver : Value} {kind : AccessKind} {given : Given}
    {bySymbol : Bool} (hoffer : offered h resolver kind = .ok (some given, bySymbol))
    (part : ClassPart) : given ≠ .part part := by
  have hmap : ∀ {given? : Option Given}, given?.map (Given.settled h) = some given →
      given ≠ .part part := by
    intro given? hgiven
    obtain ⟨_, -, rfl⟩ := Option.map_eq_some_iff.mp hgiven
    exact Given.settled_ne_part h _ part
  have hvalue : ∀ {found : Option Value}, found.map Given.value = some given →
      given ≠ .part part := by
    intro found hgiven
    obtain ⟨_, -, rfl⟩ := Option.map_eq_some_iff.mp hgiven
    exact nofun
  have hfind : Attribute.find? h resolver kind.reservedName = some given → given ≠ .part part := by
    intro hfound
    unfold Attribute.find? at hfound
    split at hfound
    · cases hfound
      exact nofun
    · split at hfound
      · split at hfound
        · cases hfound
        · split at hfound
          · exact hvalue hfound
          · split at hfound
            · cases hfound
              exact Given.settled_ne_part h _ part
            · split at hfound
              · exact hvalue hfound
              · cases hfound
      · exact hvalue hfound
  unfold offered at hoffer
  split at hoffer
  · split at hoffer
    · cases hinspect : h.inspect (.object kind.symbol) with
      | error failure => rw [hinspect] at hoffer; cases hoffer
      | ok shown =>
        rw [hinspect] at hoffer
        exact hvalue (Prod.mk.inj (Except.ok.inj hoffer)).1
    · exact hmap (Prod.mk.inj (Except.ok.inj hoffer)).1
  · exact hmap (Prod.mk.inj (Except.ok.inj hoffer)).1
  · exact hfind (Prod.mk.inj (Except.ok.inj hoffer)).1

/-- Only what is neither null nor can be called is refused. -/
theorem refused_of_accept {resolver : Value} {kind : AccessKind} {m m' : Machine}
    {given : Option Given} {bySymbol : Bool} {e : Stop}
    (hsettled : ∀ part, given ≠ some (.part part))
    (hrefused : accept resolver kind m (given, bySymbol) = (.error e, m')) :
    ∃ v, given = some (.value v) ∧ v ≠ .null ∧ m.heap.isCallable v = false
      ∧ e = .fault (Fault.arising m.heap (.handlerNotFunction resolver kind bySymbol)) ∧ m' = m := by
  cases given with
  | none => cases hrefused
  | some given =>
    cases given with
    | method f => cases hrefused
    | part p => exact (hsettled p rfl).elim
    | value v =>
      have hnull : v ≠ .null := by
        rintro rfl
        cases hrefused
      rw [accept_value hnull] at hrefused
      split at hrefused
      · cases hrefused
      · rename_i hcallable
        cases hrefused
        exact ⟨v, rfl, hnull, Bool.eq_false_iff.mpr hcallable, rfl, rfl⟩

/-- A refusal has a message, if the symbol can be put into words where the offer stands under it. -/
theorem message_handlerNotFunction {h : Heap} (resolver : Value) {kind : AccessKind}
    {bySymbol : Bool} {text : String}
    (htext : bySymbol = true → h.inspect (.object kind.symbol) = .ok text) :
    Fault.message h (.handlerNotFunction resolver kind bySymbol)
      = .ok (some (h.typeName resolver ++ "." ++ (if bySymbol then text else kind.reservedName)
        ++ " is not callable")) := by
  cases bySymbol with
  | false => rfl
  | true => simp [Fault.message, htext rfl, bind, Except.bind, pure, Except.pure]

/-- What the registry has for a resolver, or the fault that there is nothing. -/
def attachedEnd (resolver : Value) (kind : AccessKind) (m : Machine) : Except Stop Handler :=
  match (m.registry.lookup m.heap resolver).bind fun handlers => handlers.forKind kind with
  | some f => .ok ⟨f, some resolver⟩
  | none => .error (.fault (.noHandler resolver kind))

/-- A resolver is served by its own handler, and by the registry only where it has none. -/
theorem on_handler (resolver : Value) (kind : AccessKind) (m : Machine) :
    on (handler resolver kind) m = match on (selfAttached resolver kind) m with
      | (.ok (some f), m') => (.ok ⟨f, none⟩, m')
      | (.ok none, m') => (attachedEnd resolver kind m', m')
      | (.error e, m') => (.error e, m') := by
  rw [handler, Run.on_bind]
  rcases on (selfAttached resolver kind) m with ⟨e | _ | f, m'⟩
  · rfl
  · dsimp only
    rw [Run.on_bind, Run.on_get]
    unfold attachedEnd
    dsimp only
    cases (m'.registry.lookup m'.heap resolver).bind fun handlers => handlers.forKind kind <;> rfl
  · rfl

end Resolver

end ChainScript
