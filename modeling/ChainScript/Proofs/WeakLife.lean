import ChainScript.Host
import ChainScript.Proofs.WeakKeys

/-!
# The life of a weak store

In the course of its life a weak store is used about keys that it takes and about keys that it
refuses, and collections take entries away whose keys are no longer alive. `WeakLife` says what can
happen to it, and keeps a record: the uses about keys that it takes, with what was seen of them, and
the keys that were lost. The record is right for a finite map, and so the store matches one that
loses nothing. What it refuses leaves no trace.
-/

namespace ChainScript

open Run (on)

/-- A collection that leaves alone what is held besides the machine takes a key away: it is an
object that is not alive. -/
def Machine.Loses (m : Machine) (held : List Value) (key : Value) : Prop :=
  ∃ id, key = .object id ∧ ¬m.heap.Alive (m.roots ++ held) id

/-- What can happen to a weak store that stands at a place on a machine, with a record of it, and
the machine that is left. -/
inductive WeakLife (depth : Nat) (env : Value) (store : ObjectId) (m : Machine) :
    List StoreEvent → Machine → Prop where
  | start : WeakLife depth env store m [] m
  /-- A program uses the store about a key that it takes, and that was not lost before. -/
  | use {events : List StoreEvent} {m' m'' : Machine} {use : StoreUse} {key : Value}
    {stop : Except Stop Value} (life : WeakLife depth env store m events m')
    (hkey : use.key? = some key) (htaken : m'.heap.isWeakKey key = true)
    (hgone : key ∉ StoreEvent.gone events)
    (hrun : on (Eval.eval (invoke (depth + 2)) env (use.node (.object store))) m' = (stop, m'')) :
    WeakLife depth env store m (events ++ [.used use (StoreUse.seen? stop)]) m''
  /-- A program uses the store about a key that it refuses. -/
  | refuse {events : List StoreEvent} {m' m'' : Machine} {use : StoreUse} {key : Value}
    {stop : Except Stop Value} (life : WeakLife depth env store m events m')
    (hkey : use.key? = some key) (hrefused : m'.heap.Refuses key)
    (hrun : on (Eval.eval (invoke (depth + 2)) env (use.node (.object store))) m' = (stop, m'')) :
    WeakLife depth env store m events m''
  /-- What is reachable neither from the machine nor from what is held besides is collected. The
  keys that are lost are those of entries whose keys are not alive. -/
  | collect {events : List StoreEvent} {m' : Machine} {entries : StoreEntries} {keys : List Value}
    (life : WeakLife depth env store m events m') (held : List Value)
    (hentries : m'.heap.object? store = some (.weakStore entries))
    (hkeys : ∀ key, key ∈ keys ↔ key ∈ entries.pairs.map Prod.fst ∧ m'.Loses held key) :
    WeakLife depth env store m (events ++ [.lost keys]) (m'.sweep held)
  /-- Anything else happens that leaves the store as it is: objects are made, what refers to a key
  is changed, other stores are used. -/
  | meanwhile {events : List StoreEvent} {m' m'' : Machine} {entries : StoreEntries}
    (life : WeakLife depth env store m events m') (hbefore : m'.Offers true store entries)
    (hafter : m''.Offers true store entries) : WeakLife depth env store m events m''

variable {depth : Nat} {env : Value} {store : ObjectId} {m m' : Machine} {entries : StoreEntries}
  {events : List StoreEvent}

namespace Machine.Offers

/-- One use about a key that a weak store takes is answered as by the finite map. -/
theorem use_taken (hs : m.Offers true store entries) {use : StoreUse} {key : Value}
    (hkey : use.key? = some key) (htaken : m.heap.isWeakKey key = true) {stop : Except Stop Value}
    (hrun : on (Eval.eval (invoke (depth + 2)) env (use.node (.object store))) m = (stop, m')) :
    StoreUse.seen? stop = some (use.answer (.object store) entries.pairs)
      ∧ m'.OffersPairs true store (use.next entries.pairs) := by
  obtain ⟨c, hc, hck⟩ := Option.bind_eq_some_iff.mp hkey
  have hvalid : c.Valid := by
    cases c <;> cases hck <;> exact Heap.isKey_of_isWeakKey htaken
  have hbase : ∀ base, use.base? = some base → base.isNullish = false := by
    intro base hbase
    obtain rfl := StoreUse.eq_of_base? hkey hbase
    cases base with
    | null | undefined => simp [Heap.isWeakKey, Heap.isPrimitive] at htaken
    | _ => rfl
  obtain ⟨v, m₁, hv, hanswer, hm₁⟩ := StoreUse.yields_use hs hc hvalid
    (fun _ => StoreCall.operation_weak_of_key? hck)
    (fun _ k hk => by cases hck.symm.trans hk; exact htaken) hbase depth env
  cases hrun.symm.trans hv
  rw [hanswer]
  exact ⟨rfl, hm₁⟩

/-- A collection leaves the keys out that it takes away. -/
theorem sweep_without (hs : m.Offers true store entries) (held : List Value) {keys : List Value}
    (hkeys : ∀ key, key ∈ keys ↔ key ∈ entries.pairs.map Prod.fst ∧ m.Loses held key) :
    (m.sweep held).OffersPairs true store (entries.pairs.without keys) := by
  -- A sweep keeps what is alive, and of the keys that there are, just the others are lost.
  obtain ⟨alive, halive, entries', hs', hpairs⟩ := hs.sweep held
  refine ⟨entries', hs', hpairs.trans (List.filter_congr fun pair hpair => ?_)⟩
  have hmem : pair.1 ∈ entries.pairs.map Prod.fst := List.mem_map_of_mem hpair
  rw [Bool.eq_iff_iff, decide_eq_true_iff, hkeys]
  simp only [hmem, true_and, Machine.Loses]
  cases pair.1 with
  | object id => simp [Value.keptBy, halive]
  | _ => simp [Value.keptBy]

/-- The size of a weak store is the number of its entries. -/
theorem length_eq (hs : m.Offers true store entries) :
    on (Host.length (.object store)) m = (.ok entries.pairs.length, m) := by
  rw [StoreEntries.length_pairs, Host.length, Run.on_bind, Run.on_objectOf?]
  simp only [Heap.objectOf?, hs.object, Store.ofEntries, if_true]
  rfl

end Machine.Offers

/-- The record of the life of a weak store is right for the finite map of its pairs. -/
theorem WeakLife.course (hs : m.Offers true store entries)
    (life : WeakLife depth env store m events m') :
    ∃ entries', m'.Offers true store entries'
      ∧ StoreCourse (.object store) entries.pairs events entries'.pairs := by
  -- The induction is on the life. Uses and collections are steps of the record; nothing else
  -- changes the pairs.
  induction life with
  | start => exact ⟨entries, hs, .start⟩
  | use life hkey htaken hgone hrun ih =>
    obtain ⟨entries₁, hs₁, course⟩ := ih
    obtain ⟨hseen, entries₂, hs₂, hpairs⟩ := hs₁.use_taken hkey htaken hrun
    refine ⟨entries₂, hs₂, ?_⟩
    rw [hseen, hpairs]
    exact .use course hkey (Heap.sole_of_isWeakKey htaken) hgone
  | refuse life hkey hrefused hrun ih =>
    obtain ⟨entries₁, hs₁, course⟩ := ih
    obtain ⟨stop, m₂, hrun', ⟨entries₂, hs₂, hpairs⟩, -⟩ := hs₁.use_refused hrefused hkey _ _
    cases hrun.symm.trans hrun'
    exact ⟨entries₂, hs₂, hpairs ▸ course⟩
  | collect life held hentries hkeys ih =>
    obtain ⟨entries₁, hs₁, course⟩ := ih
    cases hentries.symm.trans hs₁.object
    obtain ⟨entries₂, hs₂, hpairs⟩ := hs₁.sweep_without held hkeys
    exact ⟨entries₂, hs₂, hpairs ▸ .lose course _⟩
  | meanwhile life hbefore hafter ih =>
    obtain ⟨entries₁, hs₁, course⟩ := ih
    cases hbefore.object.symm.trans hs₁.object
    exact ⟨_, hafter, course⟩

end ChainScript
