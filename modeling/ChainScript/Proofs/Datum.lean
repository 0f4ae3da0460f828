import ChainScript.Proofs.PrintNesting

/-!
# Data and their texts

A datum is what a value comes to when the lists that it names are opened: null, undefined, a
Boolean, a whole number, a string, or a list of data. The places of the lists on the heap are not
part of it, nor whether one list stands in two places, so two values are the same data when they
unfold to the same datum.

The printer comes to the text of the datum wherever it may nest as deep as `Datum.room`, and is cut
off everywhere else (`Heap.Unfolds.renderWithin_eq`). Neither the level nor the width of an
indentation step shows in the text.
-/

namespace ChainScript

/-- What is left of a value when its lists are opened. -/
inductive Datum where
  | null
  | undefined
  | bool (b : Bool)
  | int (n : Int)
  | str (s : String)
  | list (items : List Datum)

namespace Datum

mutual

/-- How a datum is written. -/
def text : Datum → String
  | .null => "null"
  | .undefined => "undefined"
  | .bool b => if b then "true" else "false"
  | .int n => toString n
  | .str s => stringLiteral s
  | .list items => "[" ++ commaSeparated (texts items) ++ "]"

/-- How data are written in order. -/
def texts : List Datum → List String
  | [] => []
  | d :: ds => d.text :: texts ds

end

mutual

/-- How deep the printer nests to come to the text of a datum. A number is inspected. -/
def room : Datum → Nat
  | .int _ => 2
  | .list items => roomAll items + 1
  | _ => 1

/-- How deep the printer nests to come to the texts of data in order. -/
def roomAll : List Datum → Nat
  | [] => 0
  | d :: ds => max d.room (roomAll ds)

end

end Datum

namespace Heap

variable {h : Heap}

/-- A value is a datum once the lists that it names are opened. -/
inductive Unfolds (h : Heap) : Value → Datum → Prop
  | null : Unfolds h .null .null
  | undefined : Unfolds h .undefined .undefined
  | bool (b : Bool) : Unfolds h (.bool b) (.bool b)
  | int (n : Int) : Unfolds h (.int n) (.int n)
  | str (s : String) : Unfolds h (.str s) (.str s)
  | list {v : Value} {items : List Value} {ds : List Datum} (hv : h.listItems? v = some items)
    (hitems : List.Forall₂ (Unfolds h) items ds) : Unfolds h v (.list ds)

/-- Of values that are texts, the texts are at hand. -/
theorem allTexts_map_str (texts : List String) : allTexts (texts.map Value.str) = pure texts := by
  induction texts with
  | nil => rfl
  | cons s texts ih => rw [List.map_cons, allTexts, ih, pure_bind]

mutual

/-- What unfolds to a datum is printed as the text of the datum, wherever there is room for it. -/
theorem Unfolds.renderWithin_eq (width level : Int) :
    ∀ {d : Datum} {v : Value}, h.Unfolds v d → ∀ depth : Nat,
      h.renderWithin depth [] width level v
        = if d.room ≤ depth then pure (.str d.text) else throw .tooDeep
  | .list ds, v, hv, depth => by
    obtain _ | _ | _ | _ | _ | ⟨hlist, hitems⟩ := hv
    cases depth with
    | zero => rfl
    | succ depth =>
      rw [renderWithin_list hlist, mapM_renderWithin width level hitems depth, Datum.room, Datum.text]
      by_cases hroom : Datum.roomAll ds ≤ depth
      · rw [if_pos hroom, if_pos (Nat.succ_le_succ hroom), pure_bind, allTexts_map_str, pure_bind]
      · rw [if_neg hroom, if_neg fun hle => hroom (Nat.le_of_succ_le_succ hle)]
        rfl
  | .int n, _, .int _, depth => by
    -- The printer goes one step down to inspect the number.
    match depth with
    | 0 | 1 | _ + 2 => rfl
  | .null, _, .null, depth | .undefined, _, .undefined, depth | .bool _, _, .bool _, depth
  | .str _, _, .str _, depth => by cases depth <;> rfl

/-- Items are printed in order, wherever there is room for all of them. -/
theorem mapM_renderWithin (width level : Int) : ∀ {ds : List Datum} {items : List Value},
    List.Forall₂ h.Unfolds items ds → ∀ depth : Nat,
      items.mapM (h.renderWithin depth [] width level)
        = if Datum.roomAll ds ≤ depth then pure ((Datum.texts ds).map Value.str) else throw .tooDeep
  | [], _, .nil, _ => rfl
  | d :: ds, _, .cons hv hitems, depth => by
    rw [List.mapM_cons, hv.renderWithin_eq width level depth, mapM_renderWithin width level hitems depth,
      Datum.roomAll, Datum.texts]
    by_cases hd : d.room ≤ depth
    · by_cases hds : Datum.roomAll ds ≤ depth
      · rw [if_pos hd, if_pos hds, if_pos (max_le hd hds)]
        rfl
      · rw [if_pos hd, if_neg hds, if_neg fun hle => hds ((le_max_right _ _).trans hle)]
        rfl
    · rw [if_neg hd, if_neg fun hle => hd ((le_max_left _ _).trans hle)]
      rfl

end

end Heap

end ChainScript
