import ChainScript.Proofs.WeakAddress
import ChainScript.Proofs.WeakLife

/-!
# A weak store is a store of live keys

A weak store answers as a store does, whatever happens to the objects that are its keys. It refuses
what cannot be a key, and a key that is gone takes nothing with it but its own entry: all answers
are those of a store that never had it.

This is said twice, on the machine, where an entry stands under the identity of its key, and of a
table in which it stands under the address of its key, which another object may get.

A refusal quotes a primitive key, and a symbol that has lost its description cannot be quoted. The
refusal of such a key is another fault.
-/

namespace ChainScript

open Run (on)

namespace WeakStore

/-- A weak store is a store that is restricted to keys which are alive.

* In whatever life, it has the size of a finite map and answers as a store does that starts with the
  same entries. Its answers about keys that are not lost, and its entries in the end, are those of a
  store that never had the keys which were lost.
* It has nothing under a key that it refuses. Entering a value under one is a type error, if the key
  can be put into words, and every entry stays as it is.
* A table that finds the same entries by the addresses of their keys has the same answers and the
  same size, wherever new objects are made, and whenever the references to objects that are gone
  call back. -/
theorem answers_as_store_of_live_keys (depth : Nat) (env : Value) {m : Machine} {store : ObjectId}
    {entries : StoreEntries} (hs : m.Offers true store entries) :
    (∀ {events : List StoreEvent} {m' : Machine}, WeakLife depth env store m events m' →
      ∃ entries', m'.Offers true store entries'
        ∧ on (Host.length (.object store)) m' = (.ok entries'.pairs.length, m')
        ∧ StoreEvent.MatchesStore depth env entries.pairs events entries'.pairs)
    ∧ (∀ {use : StoreUse} {key : Value}, use.key? = some key → m.heap.Refuses key →
      ∃ stop m', on (Eval.eval (invoke (depth + 2)) env (use.node (.object store))) m = (stop, m')
        ∧ m'.OffersPairs true store entries.pairs
        ∧ (m.CanName store key → StoreUse.seen? stop = some use.refusal))
    ∧ (∀ {mem mem' : Memory} {table table' : AddressStore} {events : List StoreEvent},
      table.Represents mem entries.pairs →
      AddressLife (.object store) mem table events mem' table' →
      ∃ pairs', table'.Represents mem' pairs' ∧ table'.size mem' = pairs'.length
        ∧ StoreEvent.MatchesStore depth env entries.pairs events pairs') := by
  refine ⟨fun life => ?_, fun hkey hrefused => hs.use_refused hrefused hkey depth env,
    fun hrepresents life => ?_⟩
  · obtain ⟨entries', hs', course⟩ := life.course hs
    exact ⟨entries', hs', hs'.length_eq, course.matches_store depth env⟩
  · obtain ⟨pairs', hrepresents', course⟩ := life.course hrepresents
    exact ⟨pairs', hrepresents', hrepresents'.size_eq, course.matches_store depth env⟩

/-- A machine with the built-in handlers, an empty weak store, and two objects. -/
def withWeakStore : Machine :=
  { Machine.blank with
    heap := (((Machine.blank.heap.alloc (.weakStore .empty)).2.alloc (.instance .plain)).2.alloc
      (.instance .plain)).2
    registry := .standard }

/-- The machine with a weak store offers an empty one. -/
theorem offers_withWeakStore : withWeakStore.Offers true 4 .empty :=
  Machine.offers_made rfl rfl rfl rfl

/-- A use of its weak store. -/
def useWeakStore (m : Machine) (use : StoreUse) : Except Stop Value × Machine :=
  on (Eval.eval (invoke 2) .null (use.node (.object 4))) m

/-- The machine after values were entered for both objects. -/
def withEntries : Machine :=
  (useWeakStore (useWeakStore withWeakStore (.write (.object 5) (.int 1))).2
    (.call (.set (.object 6) (.int 2)))).2

/-- What happens to the weak store there: values are entered for both objects, one is lost, and the
other is looked up. -/
def withWeakStoreEvents : List StoreEvent :=
  [.used (.write (.object 5) (.int 1)) (some (.ok (.int 1))),
    .used (.call (.set (.object 6) (.int 2))) (some (.ok (.object 4))),
    .lost [.object 5],
    .used (.read (.object 6)) (some (.ok (.int 2)))]

/-- Only the object that is held is alive then. -/
theorem loses_withEntries (key : Value) :
    key ∈ [Value.object 5] ↔ key ∈ [Value.object 5, .object 6]
      ∧ withEntries.Loses [.object 4, .object 6] key := by
  -- Nothing refers to the one object, and the other is held, so it sustains itself.
  have hdead : ¬withEntries.heap.Alive (withEntries.roots ++ [.object 4, .object 6]) 5 := by
    intro halive
    have hmarked := (Heap.marked_reachable_iff (by decide +kernel)).mpr
      (halive.reaches (by decide +kernel))
    have hunmarked : (withEntries.heap.reachable
        (withEntries.roots ++ [.object 4, .object 6])).getD 5 true = false := by
      decide +kernel
    rw [Heap.Marked, hunmarked] at hmarked
    cases hmarked
  have halive : withEntries.heap.Alive (withEntries.roots ++ [.object 4, .object 6]) 6 := by
    refine ⟨fun id => id == 6, fun id _ hid => ?_, rfl⟩
    rw [beq_iff_eq.mp hid]
    exact .root (by simp)
  constructor
  · intro hkey
    rw [List.mem_singleton.mp hkey]
    exact ⟨List.mem_cons_self, 5, rfl, hdead⟩
  · rintro ⟨hkey, id, rfl, hlost⟩
    rcases List.mem_cons.mp hkey with h5 | h6
    · exact h5 ▸ List.mem_cons_self
    · cases List.mem_singleton.mp h6
      exact absurd halive hlost

/-- These events make up a life of the weak store. -/
theorem life_withWeakStore : WeakLife 0 .null 4 withWeakStore withWeakStoreEvents
    (useWeakStore (withEntries.sweep [.object 4, .object 6]) (.read (.object 6))).2 := by
  have entered : WeakLife 0 .null 4 withWeakStore (withWeakStoreEvents.take 2) withEntries :=
    .use (.use .start rfl rfl nofun rfl) rfl rfl nofun rfl
  have collected : WeakLife 0 .null 4 withWeakStore (withWeakStoreEvents.take 3)
      (withEntries.sweep [.object 4, .object 6]) :=
    .collect entered _ rfl loses_withEntries
  have found : StoreUse.seen? (useWeakStore (withEntries.sweep [.object 4, .object 6])
      (.read (.object 6))).1 = some (.ok (.int 2)) := by
    decide +kernel
  have key : (StoreUse.read (.object 6)).key? = some (.object 6) := rfl
  -- The end of the last use gets a name, so that only what is seen of it is computed.
  obtain ⟨stop, hstop⟩ : ∃ stop, (useWeakStore (withEntries.sweep [.object 4, .object 6])
      (.read (.object 6))).1 = stop := ⟨_, rfl⟩
  have used : WeakLife 0 .null 4 withWeakStore
      (withWeakStoreEvents.take 3 ++ [.used (.read (.object 6)) (StoreUse.seen? stop)])
      (useWeakStore (withEntries.sweep [.object 4, .object 6]) (.read (.object 6))).2 :=
    collected.use key (by decide +kernel) (by decide) (Prod.ext hstop rfl)
  rw [← hstop, found] at used
  exact used

/-- An object at an address that another had before, and a callback of the reference to that other.
-/
def reusedAddressEvents : List StoreEvent :=
  [.used (.call (.set (.object 5) (.int 1))) (some (.ok (.object 4))), .lost [.object 5],
    .used (.call (.has (.object 7))) (some (.ok (.bool false))),
    .used (.call (.set (.object 7) (.int 2))) (some (.ok (.object 4))),
    .used (.call (.get (.object 7) none)) (some (.ok (.int 2)))]

/-- The events with an address that is used again are a life of the store. -/
theorem life_reusedAddress : ∃ mem table,
    AddressLife (.object 4) .empty ⟨.empty, 0⟩ reusedAddressEvents mem table := by
  have sole : ∀ id, (Value.object id).Sole := fun id v => by simp [Value.sameKey]
  have begun : AddressLife (.object 4) .empty ⟨.empty, 0⟩ [] .empty ⟨.empty, 0⟩ := .start
  have made := begun.born (v := .object 5) (a := 100) List.not_mem_nil (sole 5)
    fun _ h => by cases h
  have entered := made.call (c := .set (.object 5) (.int 1)) (a := 100) rfl rfl
  have died := entered.died (v := .object 5) (a := 100) rfl
  have born := died.born (v := .object 7) (a := 100)
    (by simp [Memory.drop, Memory.place, Memory.empty]) (sole 7) (by
      intro w hw
      simp only [Memory.drop, Memory.place] at hw
      split at hw
      · cases hw
      · cases hw)
  have asked := born.call (c := .has (.object 7)) (a := 100) rfl rfl
  have reentered := asked.call (c := .set (.object 7) (.int 2)) (a := 100) rfl rfl
  have calledBack := reentered.callback ⟨0, .object 5⟩ 100 rfl
  exact ⟨_, _, calledBack.call (c := .get (.object 7) none) (a := 100) rfl rfl⟩

/-- The weak store answers as a store does that never had the object which is lost. It refuses a
text, and a table by addresses is not confused by an object in the place of another. -/
theorem lost_key_leaves_other_entry :
    withWeakStore.Offers true 4 .empty
      ∧ (∃ m, WeakLife 0 .null 4 withWeakStore withWeakStoreEvents m
        ∧ (StoreUse.runAll 0 .null 4 StoreUse.withStore
            [.call (.set (.object 6) (.int 2)), .read (.object 6)]).1.map StoreUse.seen?
          = [some (.ok (.object 4)), some (.ok (.int 2))])
      ∧ (∃ stop m, useWeakStore withWeakStore (.write (.str "a") (.int 1)) = (stop, m)
        ∧ m.OffersPairs true 4 [] ∧ StoreUse.seen? stop = some (.error .typeError))
      ∧ ∃ mem table pairs, AddressLife (.object 4) .empty ⟨.empty, 0⟩ reusedAddressEvents mem table
        ∧ table.size mem = pairs.length
        ∧ StoreEvent.MatchesStore 0 .null [] reusedAddressEvents pairs := by
  obtain ⟨lives, refuses, byAddress⟩ := answers_as_store_of_live_keys 0 .null offers_withWeakStore
  refine ⟨offers_withWeakStore, ⟨_, life_withWeakStore, ?_⟩, ?_, ?_⟩
  · obtain ⟨entries', -, -, hmatches⟩ := lives life_withWeakStore
    exact (hmatches.lasting StoreUse.serves_withStore (by decide)).1
  · have key : (StoreUse.write (.str "a") (.int 1)).key? = some (.str "a") := rfl
    obtain ⟨stop, m, hrun, hpairs, hseen⟩ := refuses key ⟨rfl, nofun⟩
    exact ⟨stop, m, hrun, hpairs, hseen (Heap.canName_of_plain _ trivial)⟩
  · obtain ⟨mem, table, life⟩ := life_reusedAddress
    obtain ⟨pairs, -, hsize, hmatches⟩ := byAddress (AddressStore.Represents.empty .empty 0) life
    exact ⟨mem, table, pairs, life, hsize, hmatches⟩

/-- A machine with the built-in handlers, an empty weak store, and a symbol that has lost its
description. -/
def withUndescribed : Machine :=
  { Machine.blank with
    heap := ((Machine.blank.heap.alloc (.weakStore .empty)).2.alloc (.symbol none)).2
    registry := .standard }

/-- Such a symbol is no key, and entering a value under it is refused, but not by a type error. -/
theorem undescribed_symbol_is_no_type_error :
    withUndescribed.Offers true 4 .empty ∧ withUndescribed.heap.Refuses (.object 5)
      ∧ [StoreUse.write (.object 5) (.int 1), .call (.set (.object 5) (.int 1))].map StoreUse.refusal
        = [.error .typeError, .error .typeError]
      ∧ [StoreUse.write (.object 5) (.int 1), .call (.set (.object 5) (.int 1))].map (fun use =>
          StoreUse.seen? (on (Eval.eval (invoke 2) .null (use.node (.object 4))) withUndescribed).1)
        = [some (.error .attributeError), some (.error .attributeError)] := by
  refine ⟨Machine.offers_made rfl rfl rfl rfl, ⟨rfl, ?_⟩, rfl, rfl⟩
  rintro id hid
  cases hid
  decide

end WeakStore

end ChainScript
