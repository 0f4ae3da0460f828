import ChainScript.Proofs.StoreSurface

/-!
# The record of a store that loses keys

A record tells the uses of a store, with what was seen of them, and the keys that the store lost in
between. `StoreCourse` says of a record that it is right for a finite map: every use was answered as
the map answers, and a key that was lost is not in the map from there on.

A store that loses nothing answers the same uses in the same way, as long as none is about a key
that was lost before. And if the keys that were lost are left out of the record, from its beginning,
the rest is the record of a store that never had them. `StoreCourse.matches_store` says both, and
`StoreCourse.spared` is the invariant behind them, for any keys that are left out.
-/

namespace ChainScript

open Run (on)

/-- No other value is the same key of a store. -/
def Value.Sole (key : Value) : Prop := ∀ v, key.sameKey v = true ↔ key = v

/-! ## Leaving keys out -/

namespace Pairs

/-- The pairs for keys that are not among the given ones. -/
def without (pairs : Pairs) (gone : List Value) : Pairs := pairs.filter fun pair => pair.1 ∉ gone

variable {pairs : Pairs} {gone : List Value} {key : Value}

/-- The pairs that are left are those whose keys are not gone. -/
@[simp] theorem mem_without {pair : Value × Value} :
    pair ∈ pairs.without gone ↔ pair ∈ pairs ∧ pair.1 ∉ gone := by
  simp [without, List.mem_filter]

/-- Without loss the pairs stay as they are. -/
@[simp] theorem without_nil : pairs.without [] = pairs := by simp [without]

/-- Losing keys in two goes is losing them at once. -/
theorem without_append (more : List Value) :
    pairs.without (gone ++ more) = (pairs.without gone).without more := by
  simp only [without, List.filter_filter]
  refine List.filter_congr fun pair _ => ?_
  simp [Bool.and_comm]

/-- Losing the same keys again changes nothing. -/
theorem without_self : (pairs.without gone).without gone = pairs.without gone := by
  rw [without, without, List.filter_filter]
  exact List.filter_congr fun _ _ => Bool.and_self _

/-- It does not matter which keys are lost first. -/
theorem without_comm (more : List Value) :
    (pairs.without more).without gone = (pairs.without gone).without more := by
  simp only [without, List.filter_filter]
  exact List.filter_congr fun _ _ => Bool.and_comm _ _

/-- What is looked up is still found where other keys were left out. -/
theorem value?_without (hkey : key.Sole) (hgone : key ∉ gone) :
    (pairs.without gone).value? key = pairs.value? key := by
  rw [value?, value?, without, List.find?_filter]
  refine congrArg (Option.map Prod.snd) (congrArg (pairs.find? ·) (funext fun pair => ?_))
  by_cases hsame : key.sameKey pair.1 = true
  · have hin : pair.1 ∉ gone := (hkey _).mp hsame ▸ hgone
    simp [hsame, hin]
  · simp [hsame]

/-- Entering a value under a key does not touch the keys that are left out. -/
theorem enter_without (hkey : key.Sole) (hgone : key ∉ gone) (value : Value) :
    (pairs.without gone).enter key value = (pairs.enter key value).without gone := by
  have hany : ((pairs.without gone).any fun pair => key.sameKey pair.1)
      = pairs.any fun pair => key.sameKey pair.1 := by
    rw [Bool.eq_iff_iff, List.any_eq_true, List.any_eq_true]
    refine exists_congr fun pair => ?_
    rw [mem_without, and_right_comm]
    refine and_iff_left_of_imp fun h => ?_
    exact (hkey _).mp h.2 ▸ hgone
  unfold enter
  rw [hany]
  split
  · rw [without, without, List.filter_map]
    refine congrArg (List.map _) (List.filter_congr fun pair _ => ?_)
    by_cases hsame : key.sameKey pair.1 = true
    · have hin : pair.1 ∉ gone := (hkey _).mp hsame ▸ hgone
      simp [hsame, hgone, hin]
    · simp [hsame]
  · rw [without, without, List.filter_append]
    simp [hgone]

/-- What is entered under a key that is left out does not show. -/
theorem without_enter_of_mem (hkey : key.Sole) (hgone : key ∈ gone) (value : Value) :
    (pairs.enter key value).without gone = pairs.without gone := by
  have hout : ∀ pair : Value × Value, key.sameKey pair.1 = true → pair.1 ∈ gone :=
    fun pair hsame => (hkey _).mp hsame ▸ hgone
  unfold enter
  split
  · rw [without, without, List.filter_map]
    have hfilter : pairs.filter ((fun pair => decide (pair.1 ∉ gone)) ∘
        fun pair => if key.sameKey pair.1 then (key, value) else pair) = pairs.without gone := by
      refine List.filter_congr fun pair _ => ?_
      by_cases hsame : key.sameKey pair.1 = true
      · simp [hsame, hgone, hout pair hsame]
      · simp [hsame]
    rw [hfilter]
    refine (List.map_congr_left fun pair hpair => ?_).trans (List.map_id _)
    exact if_neg fun hsame => (mem_without.mp hpair).2 (hout pair hsame)
  · rw [without, without, List.filter_append]
    simp [hgone]

/-- Neither does that such a key is removed. -/
theorem without_remove_of_mem (hkey : key.Sole) (hgone : key ∈ gone) :
    (pairs.remove key).without gone = pairs.without gone := by
  simp only [remove, without, List.filter_filter]
  refine List.filter_congr fun pair _ => ?_
  by_cases hsame : key.sameKey pair.1 = true
  · have hin : pair.1 ∈ gone := (hkey _).mp hsame ▸ hgone
    simp [hin]
  · simp [hsame]

/-- Keys can be removed and left out in either order. -/
theorem remove_without : (pairs.without gone).remove key = (pairs.remove key).without gone := by
  simp only [remove, without, List.filter_filter]
  refine List.filter_congr fun pair _ => ?_
  exact Bool.and_comm _ _

end Pairs

/-! ## Records -/

namespace StoreUse

/-- The key that the use is about. -/
def key? (use : StoreUse) : Option Value := use.call?.bind StoreCall.key?

/-- The uses about a key. -/
inductive About (key : Value) : StoreUse → Prop where
  | read : About key (.read key)
  | write (value : Value) : About key (.write key value)
  | remove : About key (.remove key)
  | get (default : Option Value) : About key (.call (.get key default))
  | set (value : Value) : About key (.call (.set key value))
  | has : About key (.call (.has key))
  | delete : About key (.call (.delete key))

/-- A use that has a key is one of these. -/
theorem about_of_key? {use : StoreUse} {key : Value} (hkey : use.key? = some key) :
    About key use := by
  cases use with
  | read => cases hkey; exact .read
  | write => cases hkey; exact .write _
  | remove => cases hkey; exact .remove
  | call c =>
    cases c with
    | get => cases hkey; exact .get _
    | set => cases hkey; exact .set _
    | has => cases hkey; exact .has
    | delete => cases hkey; exact .delete
    | clear => cases hkey
  | size => cases hkey

/-- If a use about a key is a chain, the key is its left operand. -/
theorem eq_of_base? {use : StoreUse} {key base : Value} (hkey : use.key? = some key)
    (hbase : use.base? = some base) : base = key := by
  cases about_of_key? hkey with
  | read | write | remove => cases hbase; rfl
  | get | set | has | delete => cases hbase

end StoreUse

/-- What is recorded of a store. -/
inductive StoreEvent where
  /-- The store is used, and what is seen of the end. -/
  | used (use : StoreUse) (seen : Option (Except FaultKind Value))
  /-- The entries of keys are lost. -/
  | lost (keys : List Value)

namespace StoreEvent

/-- The use, if the event is one. -/
def use? : StoreEvent → Option StoreUse
  | .used use _ => some use
  | .lost _ => none

/-- What is seen of the use where the store stands at the given place, if the event is one: a value
that is entered by `set` is answered by the store itself. -/
def seen? (place : ObjectId) : StoreEvent → Option (Option (Except FaultKind Value))
  | .used (.call (.set ..)) (some (.ok _)) => some (some (.ok (.object place)))
  | .used _ seen => some seen
  | .lost _ => none

/-- The keys that are lost. -/
def lostKeys : StoreEvent → List Value
  | .used .. => []
  | .lost keys => keys

/-- Whether the event is a use about a key that is not among the given ones. -/
def spares (out : List Value) : StoreEvent → Bool
  | .used use _ => use.key?.all (· ∉ out)
  | .lost _ => false

/-- The uses in a record, in order. -/
def uses (events : List StoreEvent) : List StoreUse := events.filterMap use?

/-- What is seen of them where the store stands at the given place. -/
def answers (place : ObjectId) (events : List StoreEvent) :
    List (Option (Except FaultKind Value)) :=
  events.filterMap (seen? place)

/-- The keys that were lost. -/
def gone (events : List StoreEvent) : List Value := events.flatMap lostKeys

/-- The uses about keys that are not among the given ones. -/
def sparing (out : List Value) (events : List StoreEvent) : List StoreEvent :=
  events.filter (spares out)

/-- A use loses no key. -/
@[simp] theorem gone_use (events : List StoreEvent) (use : StoreUse)
    (seen : Option (Except FaultKind Value)) : gone (events ++ [.used use seen]) = gone events := by
  simp [gone, lostKeys]

/-- What was gone and what is lost now are gone. -/
@[simp] theorem gone_lose (events : List StoreEvent) (keys : List Value) :
    gone (events ++ [.lost keys]) = gone events ++ keys := by
  simp [gone, lostKeys]

/-- Where no keys are left out, no uses are. -/
theorem uses_sparing_nil (events : List StoreEvent) : uses (sparing [] events) = uses events := by
  rw [uses, uses, sparing, List.filterMap_filter]
  refine congrArg (events.filterMap ·) (funext fun event => ?_)
  cases event <;> simp [spares, use?]

/-- Sparing no key, the answers are the same. -/
theorem answers_sparing_nil (place : ObjectId) (events : List StoreEvent) :
    answers place (sparing [] events) = answers place events := by
  rw [answers, answers, sparing, List.filterMap_filter]
  refine congrArg (events.filterMap ·) (funext fun event => ?_)
  cases event <;> simp [spares, seen?]

/-- Of one more event it is decided alone whether it is left out. -/
theorem sparing_concat (out : List Value) (events : List StoreEvent) (event : StoreEvent) :
    sparing out (events ++ [event])
      = if event.spares out then sparing out events ++ [event] else sparing out events := by
  rw [sparing, List.filter_append]
  cases h : event.spares out <;> simp [sparing, h]

/-- A use is left out if its key is. -/
theorem spares_used {use : StoreUse} {key : Value} (hkey : use.key? = some key) (out : List Value)
    (seen : Option (Except FaultKind Value)) :
    (used use seen).spares out = decide (key ∉ out) := by
  simp [spares, hkey]

/-- The last use comes after the others. -/
@[simp] theorem uses_concat_used (events : List StoreEvent) (use : StoreUse)
    (seen : Option (Except FaultKind Value)) :
    uses (events ++ [.used use seen]) = uses events ++ [use] := by
  simp [uses, use?]

/-- What the finite map answers is seen with one store in the place of another. -/
theorem seen?_answer (place : ObjectId) (use : StoreUse) (store : Value) (pairs : Pairs) :
    seen? place (.used use (some (use.answer store pairs)))
      = some (some (use.answer (.object place) pairs)) := by
  cases use with
  | call c => cases c <;> rfl
  | _ => rfl

/-- The answer of the last use comes after the others. -/
theorem answers_concat_used (place : ObjectId) (events : List StoreEvent) (use : StoreUse)
    (store : Value) (pairs : Pairs) :
    answers place (events ++ [.used use (some (use.answer store pairs))])
      = answers place events ++ [some (use.answer (.object place) pairs)] := by
  simp [answers, seen?_answer]

/-- The record of a store that had the given pairs at the beginning and others in the end is that of
a store which loses nothing. -/
structure MatchesStore (depth : Nat) (env : Value) (pairs : Pairs) (events : List StoreEvent)
    (pairs' : Pairs) : Prop where
  /-- A store that starts with the same pairs, wherever it stands, answers the same uses in the same
  way. -/
  answers : ∀ {twin : Machine} {place : ObjectId} {entries : StoreEntries},
    twin.Serves place entries → entries.pairs = pairs →
    (StoreUse.runAll depth env place twin (uses events)).1.map StoreUse.seen? = answers place events
  /-- So does a store that never had the keys which were lost, if only the uses about other keys are
  made. It has the same pairs in the end. -/
  lasting : ∀ {twin : Machine} {place : ObjectId} {entries : StoreEntries},
    twin.Serves place entries → entries.pairs = pairs.without (gone events) →
    (StoreUse.runAll depth env place twin (uses (sparing (gone events) events))).1.map StoreUse.seen?
        = StoreEvent.answers place (sparing (gone events) events)
      ∧ (StoreUse.runAll depth env place twin (uses (sparing (gone events) events))).2.ServesPairs
        place pairs'

end StoreEvent

/-- A record is right for a finite map that has the given pairs at the beginning and others in the
end. Its uses are about keys that were not lost before. -/
inductive StoreCourse (store : Value) (pairs : Pairs) : List StoreEvent → Pairs → Prop where
  | start : StoreCourse store pairs [] pairs
  | use {events : List StoreEvent} {pairs' : Pairs} {use : StoreUse} {key : Value}
    (course : StoreCourse store pairs events pairs') (hkey : use.key? = some key)
    (hsole : key.Sole) (hgone : key ∉ StoreEvent.gone events) :
    StoreCourse store pairs (events ++ [.used use (some (use.answer store pairs'))])
      (use.next pairs')
  | lose {events : List StoreEvent} {pairs' : Pairs}
    (course : StoreCourse store pairs events pairs') (keys : List Value) :
    StoreCourse store pairs (events ++ [.lost keys]) (pairs'.without keys)

/-! ## Uses where keys are left out -/

namespace StoreUse

variable {use : StoreUse} {key : Value} {pairs : Pairs} {out : List Value}

/-- The key of a use that no other value equals is no failed number. -/
theorem valid_of_sole (hkey : use.key? = some key) (hsole : key.Sole) : use.Valid := by
  have hk : key.IsKey := by
    rintro rfl
    exact absurd ((hsole _).mpr rfl) (by decide)
  cases about_of_key? hkey <;> exact hk

/-- What the finite map answers about a key does not depend on others. -/
theorem answer_without (hkey : use.key? = some key) (hsole : key.Sole) (hout : key ∉ out)
    (store : Value) : use.answer store (pairs.without out) = use.answer store pairs := by
  have hvalue : (pairs.without out).value? key = pairs.value? key := Pairs.value?_without hsole hout
  cases about_of_key? hkey <;> simp [answer, StoreCall.answer, hvalue]

/-- Neither does what it becomes touch others. -/
theorem next_without (hkey : use.key? = some key) (hsole : key.Sole) (hout : key ∉ out) :
    use.next (pairs.without out) = (use.next pairs).without out := by
  have henter : ∀ value,
      (pairs.without out).enter key value = (pairs.enter key value).without out :=
    Pairs.enter_without hsole hout
  have hremove : (pairs.without out).remove key = (pairs.remove key).without out :=
    Pairs.remove_without
  cases about_of_key? hkey with
  | read | get | has => rfl
  | write value =>
    simp only [next, henter]
    split <;> rfl
  | remove =>
    simp only [next, hremove]
    split <;> rfl
  | set value => exact henter value
  | delete => exact hremove

/-- What is done about a key that is left out does not show. -/
theorem next_without_of_mem (hkey : use.key? = some key) (hsole : key.Sole) (hout : key ∈ out) :
    (use.next pairs).without out = pairs.without out := by
  have henter : ∀ value, (pairs.enter key value).without out = pairs.without out :=
    Pairs.without_enter_of_mem hsole hout
  have hremove : (pairs.remove key).without out = pairs.without out :=
    Pairs.without_remove_of_mem hsole hout
  cases about_of_key? hkey with
  | read | get | has => rfl
  | write value =>
    rw [next]
    split
    · rfl
    · exact henter value
  | remove =>
    rw [next]
    split
    · rfl
    · exact hremove
  | set value => exact henter value
  | delete => exact hremove

/-- One more use is made on the machine that the others leave. -/
theorem runAll_concat (depth : Nat) (env : Value) (store : ObjectId) (m : Machine)
    (uses : List StoreUse) (use : StoreUse) :
    runAll depth env store m (uses ++ [use])
      = ((runAll depth env store m uses).1 ++ [(on (Eval.eval (invoke (depth + 2)) env
            (use.node (.object store))) (runAll depth env store m uses).2).1],
        (on (Eval.eval (invoke (depth + 2)) env (use.node (.object store)))
          (runAll depth env store m uses).2).2) := by
  induction uses generalizing m with
  | nil => rfl
  | cons first uses ih => simp only [List.cons_append, runAll, ih]

end StoreUse

/-! ## Right records match stores -/

namespace StoreCourse

open StoreEvent (uses answers gone sparing gone_use gone_lose sparing_concat spares_used
  uses_concat_used answers_concat_used)

variable {store : Value} {place : ObjectId} {pairs pairs' : Pairs} {events : List StoreEvent}
  {twin : Machine} {entries : StoreEntries}

/-- Whatever keys are left out of a right record, a store that starts without them answers its uses
in the same way. In the end it still is without them, and has the pairs of the map but for the keys
that were lost. -/
theorem spared (course : StoreCourse store pairs events pairs') (depth : Nat) (env : Value)
    (out : List Value) (hs : twin.Serves place entries)
    (hpairs : entries.pairs = pairs.without out) :
    (StoreUse.runAll depth env place twin (uses (sparing out events))).1.map StoreUse.seen?
        = answers place (sparing out events)
      ∧ ∃ kept : Pairs,
        (StoreUse.runAll depth env place twin (uses (sparing out events))).2.ServesPairs place kept
          ∧ kept.without out = kept ∧ pairs'.without out = kept.without (gone events) := by
  -- The induction is on the record: one more use is one more step of the store, unless its key is
  -- left out.
  induction course with
  | start =>
    refine ⟨rfl, pairs.without out, ⟨entries, hs, hpairs⟩, Pairs.without_self, ?_⟩
    exact Pairs.without_nil.symm
  | @use events pairs' use key course hkey hsole hgone ih =>
    obtain ⟨hanswers, kept, ⟨entries', hs', rfl⟩, hown, hkept⟩ := ih
    rw [gone_use, sparing_concat, spares_used hkey]
    by_cases hout : key ∈ out
    · rw [if_neg (by simpa using hout), StoreUse.next_without_of_mem hkey hsole hout]
      exact ⟨hanswers, _, ⟨entries', hs', rfl⟩, hown, hkept⟩
    · rw [if_pos (by simpa using hout)]
      -- The key is neither left out nor lost, so both maps have the same to say about it.
      have hanswer : use.answer (.object place) pairs'
          = use.answer (.object place) entries'.pairs :=
        calc use.answer (.object place) pairs'
            = use.answer (.object place) (pairs'.without out) :=
              (StoreUse.answer_without hkey hsole hout _).symm
          _ = use.answer (.object place) (entries'.pairs.without (gone events)) := by rw [hkept]
          _ = use.answer (.object place) entries'.pairs :=
              StoreUse.answer_without hkey hsole hgone _
      obtain ⟨hseen, hserves⟩ :=
        StoreUse.answers_use hs' use (StoreUse.valid_of_sole hkey hsole) depth env
      rw [uses_concat_used, answers_concat_used, StoreUse.runAll_concat]
      refine ⟨?_, _, hserves, ?_, ?_⟩
      · simp only [List.map_append, List.map_cons, List.map_nil, hanswers, hseen, hanswer]
      · rw [← StoreUse.next_without hkey hsole hout, hown]
      · rw [← StoreUse.next_without hkey hsole hout, hkept, StoreUse.next_without hkey hsole hgone]
  | @lose events pairs' course keys ih =>
    obtain ⟨hanswers, kept, hserves, hown, hkept⟩ := ih
    have hspares : (StoreEvent.lost keys).spares out = false := rfl
    rw [sparing_concat, hspares, if_neg Bool.false_ne_true, gone_lose]
    refine ⟨hanswers, kept, hserves, hown, ?_⟩
    rw [Pairs.without_append, ← hkept, Pairs.without_comm]

/-- The keys that were lost stay lost. -/
theorem without_gone (course : StoreCourse store pairs events pairs') :
    pairs'.without (gone events) = pairs' := by
  -- No use is about a key that was lost, so none brings one back.
  induction course with
  | start => exact Pairs.without_nil
  | use course hkey hsole hgone ih =>
    rw [gone_use, ← StoreUse.next_without hkey hsole hgone, ih]
  | @lose events pairs' course keys ih =>
    have hkept : (pairs'.without keys).without (gone events) = pairs'.without keys := by
      rw [Pairs.without_comm, ih]
    rw [gone_lose, Pairs.without_append, hkept, Pairs.without_self]

/-- A right record is that of a store which loses nothing. -/
theorem matches_store (course : StoreCourse store pairs events pairs') (depth : Nat) (env : Value) :
    StoreEvent.MatchesStore depth env pairs events pairs' where
  answers := by
    intro twin place entries hs hpairs
    have hspared := (course.spared depth env [] hs (hpairs.trans Pairs.without_nil.symm)).1
    rwa [StoreEvent.uses_sparing_nil, StoreEvent.answers_sparing_nil] at hspared
  lasting := by
    intro twin place entries hs hpairs
    obtain ⟨hanswers, kept, hserves, hown, hkept⟩ := course.spared depth env (gone events) hs hpairs
    rw [course.without_gone, hown] at hkept
    exact ⟨hanswers, hkept ▸ hserves⟩

end StoreCourse

end ChainScript
