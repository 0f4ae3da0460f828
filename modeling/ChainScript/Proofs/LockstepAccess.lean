import ChainScript.Access.Dispatch
import ChainScript.Proofs.Lockstep

/-!
# Accesses in lockstep

Every access does the same in both runs, whatever route its reference takes. Attributes, ordinary
slots, the search for a handler, and the environments do not look at strictness at all. Where it is
looked at, when a write or a delete was refused and when a name is bound nowhere, the stricter run
ends there with a refusal.

An ordinary write or delete that is refused changes nothing, unless the host looked after it, which
it does under text names alone. That is why a strict run can still show the key in its message: the
key was shown before the attempt, from the same heap, or it is a text, which can always be shown.
-/

namespace ChainScript

namespace Pairing

variable {P : Pairing} {h : Heap}

/-- The same answer in both runs, where a refusal leaves the heap as it was. -/
def Answered (h : Heap) (a b : Bool) (h' : Heap) : Prop := a = b ∧ (a = false → h' = h)

/-- The same answer in both runs, where a refusal leaves a key that could be shown one that can be
shown. -/
def Showing (key : Value) (h : Heap) (a b : Bool) (h' : Heap) : Prop :=
  a = b ∧ (a = false → ∀ shown, h.inspect key = .ok shown → ∃ shown', h'.inspect key = .ok shown')

/-- A success may change the heap. -/
theorem answered_true (h h' : Heap) : Answered h true true h' := ⟨rfl, fun hf => nomatch hf⟩

/-- Every answer is allowed where the heap stays as it was. -/
theorem answered_self (h : Heap) (a : Bool) : Answered h a a h := ⟨rfl, fun _ => rfl⟩

/-- A key can be shown on the heap that it was shown on. -/
theorem Answered.showing {key : Value} {h h' : Heap} {a b : Bool} (hab : Answered h a b h') :
    Showing key h a b h' :=
  ⟨hab.1, fun ha shown hshown => ⟨shown, hab.2 ha ▸ hshown⟩⟩

/-- A text can be shown on every heap. -/
theorem showing_text (name : String) (h : Heap) (a : Bool) (h' : Heap) :
    Showing (.str name) h a a h' :=
  ⟨rfl, fun _ _ _ => ⟨_, h'.inspect_str name⟩⟩

/-! ## Attributes -/

/-- What a type gives its instances is a value, a method that is made anew, or a function of the
class. -/
theorem steady_toValue (given : Given) : P.Steady h given.toValue := by
  cases given with
  | value v => exact .pure rfl
  | method m => exact steady_alloc rfl
  | part p => exact .heap (.pure rfl)

/-- An attribute is found in the same way in both runs. -/
theorem steady_attributeGet (v : Value) (name : String) : P.Steady h (Attribute.get v name) := by
  refine .heap ?_
  split
  · exact .pure rfl
  · split
    · split
      · exact .pure rfl
      · split
        · exact .pure rfl
        · split
          · exact (steady_toValue _).andThen fun a h' => .pure rfl
          · split <;> exact .pure rfl
    · exact .pure rfl

/-- An attribute is set in both runs or in neither, and a refusal changes nothing. -/
theorem lockstep_attributeSet (v : Value) (name : String) (new : Value) :
    P.Lockstep h (Answered h) (Attribute.set v name new) (Attribute.set v name new) := by
  refine .heap ?_
  have henter : (∀ o, h.objectOf? v = some o → o.kept? name = none) → P.Lockstep h (Answered h)
      (do
        Run.modifyHeap fun h => h.putAttributes v ((h.attributes v).insert name new)
        return true)
      (do
        Run.modifyHeap fun h => h.putAttributes v ((h.attributes v).insert name new)
        return true) := by
    intro hkept
    refine (Lockstep.modifyHeap (.attributes v fun other hother => ?_)).bind
      fun _ _ h' _ => .pure (answered_true h h')
    rw [Table.contains_insert, Bool.or_eq_true, decide_eq_true_iff] at hother
    rcases hother with rfl | hset
    · exact .inr hkept
    · exact .inl hset
  cases v with
  | undefined | builtin f => exact henter fun o ho => nomatch ho
  | object id =>
    dsimp only
    split
    · exact .pure (answered_self h false)
    · rename_i o ho
      split
      · exact (Lockstep.put ho (.kept o name _)).bind fun _ _ h' _ => .pure (answered_true h h')
      · rename_i hkept
        split
        · refine henter fun o' ho' => ?_
          cases ho.symm.trans ho'
          simpa using hkept
        · exact .pure (answered_self h false)
  | _ => exact .pure (answered_self h false)

/-- An attribute is removed in both runs or in neither, and a refusal changes nothing. -/
theorem lockstep_attributeDelete (v : Value) (name : String) :
    P.Lockstep h (Answered h) (Attribute.delete v name) (Attribute.delete v name) := by
  refine .heap ?_
  split
  · refine (Lockstep.modifyHeap (.attributes v fun other hother => ?_)).bind
      fun _ _ h' _ => .pure (answered_true h h')
    rw [Table.contains_erase, Bool.and_eq_true] at hother
    exact .inl hother.2
  · split
    · split
      · exact .pure (answered_self h false)
      · rename_i o ho
        split
        · exact (Lockstep.put ho (.kept o name _)).bind fun _ _ h' _ => .pure (answered_true h h')
        · exact .pure (answered_self h false)
    · exact .pure (answered_self h false)

/-! ## Ordinary slots -/

/-- The two ways to call values do the same. -/
def Callers (P : Pairing) (call call' : Caller) : Prop :=
  ∀ f arguments h, P.Paired h (call f arguments) (call' f arguments)

variable {call call' : Caller}

/-- A base that is null or undefined is refused in both runs. -/
theorem steady_toObject (v : Value) : P.Steady h (Ordinary.toObject v) := by
  unfold Ordinary.toObject
  split
  · exact .failSame _
  · exact .pure rfl

/-- A key that is no primitive is refused in both runs. -/
theorem steady_propertyKey (v : Value) : P.Steady h (Ordinary.propertyKey v) := by
  refine .heap ?_
  split
  · exact .pure rfl
  · exact .failSame _

/-- An ordinary read makes at most one call. -/
theorem paired_ordinaryGet (hcall : P.Callers call call') (base key this : Value) :
    P.Paired h (Ordinary.get call base key this) (Ordinary.get call' base key this) := by
  refine .heap ?_
  split
  · refine .keyOf fun k _ => ?_
    split
    · exact .pure rfl
    · split
      · exact .pure rfl
      · exact .failNative _
      · exact .pure rfl
      · exact hcall _ _ _
  · exact .keyOf fun k _ => .pure rfl
  · exact .keyOf fun k _ => .pure rfl
  · split
    · exact .pure rfl
    · split
      · exact hcall _ _ _
      · exact (steady_attributeGet _ _).andThen fun a h' => .pure rfl
    · exact .pure rfl

/-- A slot of a record is written in both runs or in neither. -/
theorem lockstep_writeOwn (id : ObjectId) (k : Key) (label value : Value) :
    P.Lockstep h (Answered h) (Ordinary.writeOwn id k label value)
      (Ordinary.writeOwn id k label value) := by
  refine .heap ?_
  split
  · rename_i kind slots parent frozen ho
    split
    · exact .pure (answered_self h false)
    · rename_i hfrozen
      rw [Bool.not_eq_true] at hfrozen
      subst hfrozen
      -- Only here is a slot written, and the record is not frozen.
      exact (Lockstep.put ho (.slots ..)).bind fun _ _ h' _ => .pure (answered_true h h')
  · exact .pure (answered_self h false)

/-- An ordinary write is tried alike in both runs, and after a refusal the key can still be shown.
-/
theorem lockstep_ordinarySet (hcall : P.Callers call call') (base key value this : Value) :
    P.Lockstep h (Showing key h) (Ordinary.set call base key value this)
      (Ordinary.set call' base key value this) := by
  have hshowing : ∀ {a b : Bool} {h' : Heap}, Answered h a b h' → Showing key h a b h' :=
    Answered.showing
  refine .heap ?_
  split
  · rename_i id _
    refine .keyOf fun k _ => ?_
    -- Where the write would land does not matter before it is known that no accessor takes it over.
    cases ((h.owner? k id).bind fun owner => h.ownValue? owner k).bind (Ordinary.accessor? h) with
    | none => exact (lockstep_writeOwn _ _ _ _).mono fun _ _ _ => hshowing
    | some accessor =>
      obtain ⟨getter, setter⟩ := accessor
      cases setter with
      | none => exact .failNative _
      | some setter =>
        cases setter with
        | null => exact .pure (hshowing (answered_self h false))
        | _ => exact (hcall _ _ _).andThen fun _ h' => .pure (hshowing (answered_true h h'))
  · rename_i entries id ho
    exact .keyOf fun k _ =>
      (Lockstep.put ho (.entries ..)).bind fun _ _ h' _ => .pure (hshowing (answered_true h h'))
  · exact .pure (hshowing (answered_self h false))
  · rename_i items id ho
    split
    · split
      · exact (Lockstep.put ho (.items ..)).bind fun _ _ h' _ =>
          .pure (hshowing (answered_true h h'))
      · exact .pure (hshowing (answered_self h false))
    · exact .pure (hshowing (answered_self h false))
  · split
    · split
      · exact (hcall _ _ _).andThen fun v h' => .pure (showing_text _ h _ h')
      · exact (lockstep_attributeSet _ _ _).mono fun _ _ _ => hshowing
    · exact .pure (hshowing (answered_self h false))

/-- An ordinary delete is tried alike in both runs, and after a refusal the key can still be shown.
-/
theorem lockstep_ordinaryDelete (hcall : P.Callers call call') (base key : Value) :
    P.Lockstep h (Showing key h) (Ordinary.delete call base key)
      (Ordinary.delete call' base key) := by
  have hshowing : ∀ {a b : Bool} {h' : Heap}, Answered h a b h' → Showing key h a b h' :=
    Answered.showing
  refine .heap ?_
  split
  · rename_i kind slots parent frozen id ho
    refine .keyOf fun k _ => ?_
    split
    · exact .pure (hshowing (answered_self h true))
    · split
      · exact .pure (hshowing (answered_self h false))
      · rename_i hfrozen
        rw [Bool.not_eq_true] at hfrozen
        subst hfrozen
        exact (Lockstep.put ho (.slots ..)).bind fun _ _ h' _ =>
          .pure (hshowing (answered_true h h'))
  · rename_i entries id ho
    exact .keyOf fun k _ =>
      (Lockstep.put ho (.entries ..)).bind fun _ _ h' _ => .pure (hshowing (answered_true h h'))
  · exact .keyOf fun k _ => .pure (hshowing (answered_self h _))
  · split
    · exact .pure (hshowing (answered_self h _))
    · split
      · exact (hcall _ _ _).andThen fun v h' => .pure (showing_text _ h _ h')
      · split
        · exact (lockstep_attributeDelete _ _).mono fun _ _ _ => hshowing
        · exact .pure (hshowing (answered_self h true))
    · exact .pure (hshowing (answered_self h true))

/-! ## Handlers -/

/-- A resolver has the same handler of its own in both runs. -/
theorem steady_own (resolver : Value) (kind : AccessKind) :
    P.Steady h (Resolver.own resolver kind) := by
  refine .heap ?_
  split
  · dsimp only
    split
    · exact .look (.inspect _) fun _ _ => .pure rfl
    · split
      · exact .pure rfl
      · exact (steady_toValue _).andThen fun v h' => .pure rfl
  · split
    · exact .pure rfl
    · exact (steady_toValue _).andThen fun v h' => .pure rfl
  · exact (steady_attributeGet _ _).andThen fun a h' => .pure rfl

/-- A handler of its own that cannot be called is refused in both runs. -/
theorem steady_selfAttached (resolver : Value) (kind : AccessKind) :
    P.Steady h (Resolver.selfAttached resolver kind) := by
  refine (steady_own resolver kind).andThen fun found h' => ?_
  split
  · exact .pure rfl
  · exact .pure rfl
  · refine .heap ?_
    split
    · exact .pure rfl
    · exact .failSame _

/-- The same handler serves a resolver in both runs, since both have the same registry. -/
theorem steady_handler (resolver : Value) (kind : AccessKind) :
    P.Steady h (Resolver.handler resolver kind) := by
  refine (steady_selfAttached resolver kind).andThen fun found h' => ?_
  cases found with
  | some f => exact .pure rfl
  | none =>
    refine .get fun m s t _ _ _ => ?_
    simp only [Machine.strictly_registry, Machine.strictly_heap]
    split
    · exact .pure rfl
    · exact .failSame _

/-! ## References -/

/-- The same reference, as strict as given in the first run and in the second. -/
def Twins (s t : Bool) (r r' : Reference) (_ : Heap) : Prop :=
  ∃ ref : Reference, r = ref.strictly s ∧ r' = ref.strictly t

/-- References that differ in nothing are the same. -/
theorem Twins.eq {s : Bool} {r r' : Reference} {h' : Heap} (hr : Twins s s r r' h') : r = r' := by
  obtain ⟨ref, rfl, rfl⟩ := hr
  rfl

/-- References made to the same property are the same but for strictness. -/
theorem lockstep_property (base name this : Value) (isSuper s t : Bool) :
    P.Lockstep h (Twins s t) (Reference.property base name s this isSuper)
      (Reference.property base name t this isSuper) := by
  unfold Reference.property
  split
  · exact .failSame _
  · exact .heap (.pure ⟨⟨base, _, _, s, true, isSuper⟩, rfl, rfl⟩)

/-- So are the references of `base :: resolver`. -/
theorem lockstep_chain (base resolver : Value) (s t : Bool) :
    P.Lockstep h (Twins s t) (Dispatch.chain base resolver s) (Dispatch.chain base resolver t) := by
  refine (steady_toObject base).andThen fun base' _ => ?_
  refine (lockstep_property base' resolver .undefined false s t).bind ?_
  rintro _ _ h' ⟨ref, rfl, rfl⟩
  show P.Lockstep h' (Twins s t)
    (if !ref.isVirtual then _ else pure (ref.strictly s))
    (if !ref.isVirtual then _ else pure (ref.strictly t))
  split
  · exact .look (.inspect resolver) fun shown _ => .note (.pure _) (.pure ⟨ref, rfl, rfl⟩)
  · exact .pure ⟨ref, rfl, rfl⟩

/-- The search for the environment that binds a name only looks. -/
theorem steady_owner (env name : Value) : P.Steady h (Environment.owner env name) := by
  refine .heap ?_
  split
  · exact .failNative _
  · exact .keyOf fun k _ => .pure rfl

/-- References made to the same name are the same but for strictness. -/
theorem lockstep_binding (env name : Value) (s t : Bool) :
    P.Lockstep h (Twins s t) (Dispatch.binding env name s) (Dispatch.binding env name t) :=
  (steady_owner env name).andThen fun owner _ =>
    .pure ⟨.ofBinding ((owner.map Value.object).getD .null) name s .undefined false, rfl, rfl⟩

/-- A bound value is looked up steadily. -/
theorem steady_lookup (env name : Value) : P.Steady h (Environment.lookup env name) := by
  refine .heap ?_
  split
  · exact .failNative _
  · refine .keyOf fun k _ => ?_
    split
    · exact .pure rfl
    · exact .failNative _

/-- What is an environment stands on the heap as one. -/
theorem object?_of_bindings? {env : Value} {id : ObjectId} {bindings : Slots}
    {parent : Option ObjectId} (hb : Environment.bindings? h env = some (id, bindings, parent)) :
    env = .object id ∧ h.object? id = some (.environment bindings parent) := by
  unfold Environment.bindings? at hb
  split at hb
  · rename_i ho
    cases hb
    exact ⟨rfl, ho⟩
  · cases hb

/-- A name is bound steadily. -/
theorem steady_assign (env name value : Value) :
    P.Steady h (Environment.assign env name value) := by
  refine .heap ?_
  split
  · exact .failNative _
  · rename_i hb
    exact .keyOf fun k _ => steady_put (object?_of_bindings? hb).2 (.bindings ..)

/-- A name is removed steadily. -/
theorem steady_remove (env name : Value) : P.Steady h (Environment.remove env name) := by
  refine .heap ?_
  split
  · exact .failNative _
  · rename_i hb
    exact .keyOf fun k _ =>
      (steady_put (object?_of_bindings? hb).2 (.bindings ..)).andThen fun _ h' => .pure rfl

/-! ## Carrying references out -/

variable {α β : Type} {R : α → β → Heap → Prop}

/-- After the note of an ordinary access the key is known to be one that can be shown. -/
theorem Lockstep.noteOrdinary {word : String} {key : Value} {f : PUnit → Run α}
    {g : PUnit → Run β}
    (hfg : ∀ shown, h.inspect key = .ok shown → P.Lockstep h R (f ⟨⟩) (g ⟨⟩)) :
    P.Lockstep h R (Dispatch.noteOrdinary word key >>= f) (Dispatch.noteOrdinary word key >>= g) := by
  simp only [Dispatch.noteOrdinary, Run.inspect, bind_assoc]
  exact .heap (.ofPrinted fun shown hshown => .note (.pure _) (hfg shown hshown))

/-- What follows the note of a virtual access goes on from the same heap. -/
theorem Lockstep.noteVirtual {word : String} {resolver : Value} {handler : Handler}
    {f : PUnit → Run α} {g : PUnit → Run β} (hfg : P.Lockstep h R (f ⟨⟩) (g ⟨⟩)) :
    P.Lockstep h R (Dispatch.noteVirtual word resolver handler >>= f)
      (Dispatch.noteVirtual word resolver handler >>= g) :=
  .note (.bind .heap fun _ => .pure _) hfg

/-- A read does not look at strictness. -/
theorem lockstep_read (hcall : P.Callers call call') (ref : Reference) {s t : Bool}
    (hst : P.Strictness s t) :
    P.Paired h (Dispatch.read call (ref.strictly s)) (Dispatch.read call' (ref.strictly t)) := by
  obtain ⟨base, name, this, strict, resolvable, isSuper⟩ := ref
  cases name with
  | binding name =>
    cases resolvable with
    | false =>
      exact .fail (f := fun strict => .unbound name ⟨base, .binding name, this, strict, false,
        isSuper⟩) hst rfl
    | true => exact .note (.bind (.text name) fun _ => .pure _) (steady_lookup base name)
  | ordinary key => exact .noteOrdinary fun _ _ => paired_ordinaryGet hcall base key this
  | virtual resolver =>
    exact (steady_handler resolver .get).andThen fun handler h' => .noteVirtual (hcall _ _ _)

/-- A write does the same in both runs, unless it is refused in a run that is stricter. -/
theorem lockstep_write (hcall : P.Callers call call') (ref : Reference) (value : Value)
    {s t : Bool} (hst : P.Strictness s t) :
    P.Paired h (Dispatch.write call (ref.strictly s) value)
      (Dispatch.write call' (ref.strictly t) value) := by
  obtain ⟨base, name, this, strict, resolvable, isSuper⟩ := ref
  cases name with
  | binding name =>
    cases resolvable with
    | true => exact .note (.bind (.text name) fun _ => .pure _) (steady_assign base name value)
    | false =>
      refine Lockstep.ifStrict (f := fun strict => .unboundWrite name ⟨base, .binding name, this,
        strict, false, isSuper⟩) hst ?_ (Fault.isRefusal_unboundWrite ..)
      refine .note (.bind (.text name) fun _ => .pure _) ?_
      exact .get fun m _ _ _ _ _ => steady_assign (.object m.globals) name value
  | ordinary key =>
    refine .noteOrdinary fun shown hshown => ?_
    refine (lockstep_ordinarySet hcall base key value this).bind ?_
    rintro written _ h' ⟨rfl, hrefused⟩
    cases written with
    | true => exact .pure rfl
    | false =>
      -- The key that was shown before the attempt can be shown after it.
      obtain ⟨shown', hshown'⟩ := hrefused rfl shown hshown
      exact Lockstep.ifStrict (f := fun strict => .writeRefused key ⟨base, .ordinary key, this,
        strict, resolvable, isSuper⟩) hst (.pure rfl) (Fault.isRefusal_writeRefused _ hshown')
  | virtual resolver =>
    exact (steady_handler resolver .set).andThen fun handler h' =>
      .noteVirtual (Lockstep.andThen (hcall _ _ _) fun _ _ => .pure rfl)

/-- A delete does the same in both runs, unless it is refused in a run that is stricter. -/
theorem lockstep_delete (hcall : P.Callers call call') (ref : Reference) {s t : Bool}
    (hst : P.Strictness s t) :
    P.Paired h (Dispatch.delete call (ref.strictly s))
      (Dispatch.delete call' (ref.strictly t)) := by
  obtain ⟨base, name, this, strict, resolvable, isSuper⟩ := ref
  cases isSuper with
  | true =>
    exact .fail (f := fun strict => .superDelete (.reference ⟨base, name, this, strict, resolvable,
      true⟩)) hst rfl
  | false =>
    cases name with
    | binding name =>
      cases resolvable with
      | true => exact .note (.bind (.text name) fun _ => .pure _) (steady_remove base name)
      | false => exact .pure rfl
    | ordinary key =>
      refine .noteOrdinary fun shown hshown => ?_
      refine (lockstep_ordinaryDelete hcall base key).bind ?_
      rintro deleted _ h' ⟨rfl, hrefused⟩
      cases deleted with
      | true => exact .pure rfl
      | false =>
        obtain ⟨shown', hshown'⟩ := hrefused rfl shown hshown
        exact Lockstep.ifStrict (f := fun strict => .deleteRefused key ⟨base, .ordinary key, this,
          strict, resolvable, false⟩) hst (.pure rfl) (Fault.isRefusal_deleteRefused _ hshown')
    | virtual resolver =>
      exact (steady_handler resolver .delete).andThen fun handler h' =>
        .noteVirtual (Lockstep.andThen (hcall _ _ _) fun _ _ => .pure rfl)

end Pairing

end ChainScript
