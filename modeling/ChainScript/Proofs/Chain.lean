import ChainScript.Proofs.HandlerSearch

/-!
# Chains under a change of one slot

What a name or a key stands for is decided along a chain of parents, by the nearest that holds it:
`Heap.nearest?` is the value that this one holds. Two heaps that differ in what one object holds
under one key, as they do before and after a write or a delete, have the same chains.
`Heap.DiffersUnder` says that they do, and its lemmas say for which objects the nearest holder is
another one then.
-/

namespace ChainScript

/-- A search that asks one item for less, and does not end at that item, ends where it did. -/
theorem find?_eq_of_ne {α : Type} {p q : α → Bool} {t : α} (hpq : ∀ x, x ≠ t → q x = p x)
    (ht : p t = true → q t = true) (l : List α) (hfound : l.find? q ≠ some t) :
    l.find? q = l.find? p := by
  induction l with
  | nil => rfl
  | cons x l ih =>
    rw [List.find?_cons] at hfound
    rw [List.find?_cons, List.find?_cons]
    by_cases hx : x = t
    · subst hx
      have hq : q x = false := by
        cases hqx : q x with
        | false => rfl
        | true => simp [hqx] at hfound
      have hp : p x = false := by
        cases hpx : p x with
        | false => rfl
        | true => rw [ht hpx] at hq; cases hq
      rw [hq] at hfound ⊢
      rw [hp]
      exact ih hfound
    · rw [hpq x hx] at hfound ⊢
      cases hp : p x with
      | true => rfl
      | false =>
        rw [hp] at hfound
        exact ih hfound

namespace Heap

variable {h h' h'' : Heap} {id t : ObjectId} {k j : Key}

/-! ## Chains -/

/-- What has no parent is a chain of its own. -/
theorem chain_of_parentless {slots : Slots} (hlink : h.link? id = some (slots, none)) :
    h.chain id = [id] := by
  rw [chain, hlink]

/-- The chain of an heir goes on with that of its parent. -/
theorem chain_of_parent {slots : Slots} {p : ObjectId} (hlink : h.link? id = some (slots, some p))
    (hp : p < id) : h.chain id = id :: h.chain p := by
  rw [chain, hlink]
  dsimp only
  rw [if_pos hp]

/-- A chain opens with the object itself. -/
theorem self_mem_chain {slots : Slots} {parent : Option ObjectId}
    (hlink : h.link? id = some (slots, parent)) : id ∈ h.chain id := by
  rw [chain, hlink]
  exact List.mem_cons_self

/-- What is in a chain was there before what the chain is of. -/
theorem le_of_mem_chain {x : ObjectId} (hx : x ∈ h.chain id) : x ≤ id := by
  induction id using Nat.strongRecOn with
  | ind id ih =>
    rw [chain] at hx
    cases hlink : h.link? id with
    | none => simp [hlink] at hx
    | some link =>
      obtain ⟨slots, parent⟩ := link
      rw [hlink] at hx
      rcases List.mem_cons.mp hx with rfl | hx
      · exact Nat.le_refl x
      · cases parent with
        | none => cases hx
        | some p =>
          dsimp only at hx
          split at hx
          · rename_i hp
            exact Nat.le_trans (ih p hp hx) (Nat.le_of_lt hp)
          · cases hx

/-- A chain goes down, so nothing is in it twice. -/
theorem nodup_chain (h : Heap) (id : ObjectId) : (h.chain id).Nodup := by
  induction id using Nat.strongRecOn with
  | ind id ih =>
    rw [chain]
    cases h.link? id with
    | none => exact List.nodup_nil
    | some link =>
      obtain ⟨slots, _ | p⟩ := link
      · simp
      · dsimp only
        split
        · rename_i hp
          exact List.nodup_cons.mpr
            ⟨fun hmem => absurd (le_of_mem_chain hmem) (Nat.not_le.mpr hp), ih p hp⟩
        · simp

/-! ## The nearest holder -/

/-- What the nearest holder of a key in a chain holds under it. -/
def nearest? (h : Heap) (k : Key) (id : ObjectId) : Option Value :=
  (h.owner? k id).bind fun owner => h.ownValue? owner k

/-- The nearest holder is in the chain. -/
theorem mem_chain_of_owner? {o : ObjectId} (howner : h.owner? k id = some o) : o ∈ h.chain id := by
  rw [owner?_eq_find?_chain] at howner
  exact List.mem_of_find?_eq_some howner

/-- The nearest holder holds a value. -/
theorem exists_ownValue?_of_owner? {o : ObjectId} (howner : h.owner? k id = some o) :
    ∃ v, h.ownValue? o k = some v := by
  rw [owner?_eq_find?_chain] at howner
  have howns : h.owns k o = true := List.find?_some howner
  exact Option.isSome_iff_exists.mp howns

/-- The nearest value under a key is that of the owner of the key. -/
theorem nearest?_of_owner? {o : ObjectId} (howner : h.owner? k id = some o) :
    h.nearest? k id = h.ownValue? o k := by
  rw [nearest?, howner]
  rfl

/-- Only where nothing in the chain holds the key there is no value. -/
theorem nearest?_eq_none : h.nearest? k id = none ↔ h.owner? k id = none := by
  constructor
  · intro hnone
    cases howner : h.owner? k id with
    | none => rfl
    | some o =>
      obtain ⟨v, hv⟩ := exists_ownValue?_of_owner? howner
      rw [nearest?_of_owner? howner, hv] at hnone
      cases hnone
  · intro hnone
    rw [nearest?, hnone]
    rfl

/-- What holds nothing itself passes the question on to its parent. -/
theorem owner?_of_parent {slots : Slots} {parent : Option ObjectId}
    (hlink : h.link? id = some (slots, parent)) (hown : h.ownValue? id k = none)
    (hparent : ∀ p ∈ parent, p < id) : h.owner? k id = parent.bind (h.owner? k) := by
  have hcontains : slots.contains k = false := by
    rw [← owns_eq_contains hlink, owns, hown]
    rfl
  rw [owner?, hlink]
  dsimp only
  rw [hcontains]
  cases parent with
  | none => rfl
  | some p =>
    simp only [Bool.false_eq_true, if_false]
    exact if_pos (hparent p rfl)

/-- What has no parent finds what it holds itself. -/
theorem nearest?_of_parentless {slots : Slots} (hlink : h.link? id = some (slots, none)) (k : Key) :
    h.nearest? k id = Slots.value? slots k := by
  have hown : h.ownValue? id k = Slots.value? slots k := by rw [ownValue?, hlink]
  cases hvalue : Slots.value? slots k with
  | none =>
    have howner := owner?_of_parent hlink (hown.trans hvalue) fun p hp => by cases hp
    rw [nearest?, howner]
    rfl
  | some v => rw [nearest?_of_owner? (owner?_self (hown.trans hvalue)), hown, hvalue]

/-! ## Heaps that differ in one slot -/

/-- The heaps differ at most in what one object holds under one key. -/
structure DiffersUnder (h h' : Heap) (t : ObjectId) (k : Key) : Prop where
  parent : ∀ id, (h'.link? id).map Prod.snd = (h.link? id).map Prod.snd
  held : ∀ id j, ¬(id = t ∧ j = k) → h'.ownValue? id j = h.ownValue? id j

namespace DiffersUnder

/-- An object that is put with its parent, and with other slots under no other key. -/
theorem put {o : Object} {slots slots' : Slots} {parent : Option ObjectId}
    (hlink : h.link? t = some (slots, parent)) (hlink' : (h.put t o).link? t = some (slots', parent))
    (hslots : ∀ j, j ≠ k → Slots.value? slots' j = Slots.value? slots j) :
    h.DiffersUnder (h.put t o) t k := by
  have helse : ∀ {id}, id ≠ t → (h.put t o).link? id = h.link? id := by
    intro id hid
    rw [link?, link?, object?_put, if_neg hid]
  refine ⟨fun id => ?_, fun id j hne => ?_⟩
  · by_cases hid : id = t
    · subst hid
      rw [hlink, hlink']
      rfl
    · rw [helse hid]
  · by_cases hid : id = t
    · subst hid
      rw [ownValue?, ownValue?, hlink, hlink']
      exact hslots j fun hj => hne ⟨rfl, hj⟩
    · rw [ownValue?, ownValue?, helse hid]

/-- What differs at most in one place from another differs there at most the other way round. -/
theorem symm (hd : h.DiffersUnder h' t k) : h'.DiffersUnder h t k :=
  ⟨fun id => (hd.parent id).symm, fun id j hne => (hd.held id j hne).symm⟩

/-- Differences in the same place add up to a difference in that place. -/
theorem trans (hd : h.DiffersUnder h' t k) (hd' : h'.DiffersUnder h'' t k) :
    h.DiffersUnder h'' t k :=
  ⟨fun id => (hd'.parent id).trans (hd.parent id),
    fun id j hne => (hd'.held id j hne).trans (hd.held id j hne)⟩

/-- The chains are the same. -/
theorem chain_eq (hd : h.DiffersUnder h' t k) (id : ObjectId) : h'.chain id = h.chain id := by
  induction id using Nat.strongRecOn with
  | ind id ih =>
    have hparent := hd.parent id
    rw [chain, chain]
    cases hlink : h.link? id with
    | none =>
      rw [hlink] at hparent
      rw [Option.map_eq_none_iff.mp hparent]
    | some link =>
      obtain ⟨slots, parent⟩ := link
      rw [hlink] at hparent
      obtain ⟨⟨slots', parent'⟩, hlink', hsame⟩ := Option.map_eq_some_iff.mp hparent
      obtain rfl : parent' = parent := hsame
      rw [hlink']
      cases parent' with
      | none => rfl
      | some p =>
        dsimp only
        split
        · rename_i hp
          rw [ih p hp]
        · rfl

/-- Nothing else holds the key on one heap and not on the other. -/
theorem owns_eq (hd : h.DiffersUnder h' t k) (hne : ¬(id = t ∧ j = k)) :
    h'.owns j id = h.owns j id := by
  rw [owns, owns, hd.held id j hne]

/-- Every other key has the holders that it had. -/
theorem owner?_of_ne (hd : h.DiffersUnder h' t k) (hj : j ≠ k) (id : ObjectId) :
    h'.owner? j id = h.owner? j id := by
  rw [owner?_eq_find?_chain, owner?_eq_find?_chain, hd.chain_eq]
  exact congrArg₂ _ (funext fun x => hd.owns_eq fun hx => hj hx.2) rfl

/-- An object that still holds the key, or that now does, is all that the key can be found at anew.
-/
theorem owner?_of_held (hd : h.DiffersUnder h' t k) (hheld : h.owns k t = true → h'.owns k t = true)
    (howner : h'.owner? k id ≠ some t) : h'.owner? k id = h.owner? k id := by
  rw [owner?_eq_find?_chain] at howner
  rw [owner?_eq_find?_chain, owner?_eq_find?_chain]
  rw [hd.chain_eq] at howner ⊢
  exact find?_eq_of_ne (fun x hx => hd.owns_eq fun he => hx he.1) hheld _ howner

/-- An object at which the key is not found does not matter. -/
theorem nearest?_eq (hd : h.DiffersUnder h' t k) (howner : h'.owner? j id = h.owner? j id)
    (hne : j = k → h'.owner? j id ≠ some t) : h'.nearest? j id = h.nearest? j id := by
  rw [nearest?, nearest?, ← howner]
  cases ho : h'.owner? j id with
  | none => rfl
  | some o => exact hd.held o j fun he => hne he.2 (by rw [ho, he.1])

end DiffersUnder

end Heap

end ChainScript
