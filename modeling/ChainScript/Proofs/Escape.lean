import Mathlib.Algebra.Group.Nat.Even
import Mathlib.Data.List.DropRight
import ChainScript.Print

/-!
# Escaped strings

A string is written in quotes. Inside them a backslash is put before every backslash and then before
every quote. The second replacement meets what the first one has written, but no quote is among
that, so that both together write each character on its own (`escape_cons`).

Whether a quote is escaped is settled by the backslashes right before it: it is where their number
is odd. A string may well end with backslashes or hold any run of them before a quote, and still
only the last quote of the written string is not escaped (`closesOnce_stringLiteral`).
-/

namespace ChainScript

/-- A text with a character replaced everywhere. -/
def replaced (c : Char) (new cs : List Char) : List Char :=
  cs.flatMap fun x => if x = c then new else [x]

/-- Replacing goes on behind the first character. -/
theorem replaced_cons (c : Char) (new : List Char) (x : Char) (cs : List Char) :
    replaced c new (x :: cs) = (if x = c then new else [x]) ++ replaced c new cs :=
  List.flatMap_cons

/-- Replacing goes through the halves of a text one after the other. -/
theorem replaced_append (c : Char) (new xs ys : List Char) :
    replaced c new (xs ++ ys) = replaced c new xs ++ replaced c new ys :=
  List.flatMap_append

/-- A text with its backslashes escaped, and after them its quotes. -/
def escape (cs : List Char) : List Char :=
  replaced '\x27' ['\\', '\x27'] (replaced '\\' ['\\', '\\'] cs)

/-- The empty text is escaped to itself. -/
theorem escape_nil : escape [] = [] := rfl

/-- The two replacements escape each character on its own. -/
theorem escape_cons (c : Char) (cs : List Char) :
    escape (c :: cs) = (if c = '\\' ∨ c = '\x27' then ['\\', c] else [c]) ++ escape cs := by
  rw [escape, replaced_cons, replaced_append, escape]
  congr 1
  by_cases hslash : c = '\\'
  · subst hslash
    rfl
  · by_cases hquote : c = '\x27'
    · subst hquote
      rfl
    · rw [if_neg hslash, if_neg (not_or.mpr ⟨hslash, hquote⟩), replaced_cons, if_neg hquote]
      rfl

/-- A backslash or a quote is escaped by a backslash. -/
theorem escape_cons_special {c : Char} (hc : c = '\\' ∨ c = '\x27') (cs : List Char) :
    escape (c :: cs) = '\\' :: c :: escape cs := by
  rw [escape_cons, if_pos hc]
  rfl

/-- Any other character stands for itself. -/
theorem escape_cons_plain {c : Char} (hc : ¬(c = '\\' ∨ c = '\x27')) (cs : List Char) :
    escape (c :: cs) = c :: escape cs := by
  rw [escape_cons, if_neg hc]
  rfl

/-- A string is written in quotes, escaped. -/
theorem toList_stringLiteral (s : String) :
    (stringLiteral s).toList = '\x27' :: (escape s.toList ++ ['\x27']) := by
  have hescape : ∀ cs : List Char,
      (cs.flatMap fun c => if c == '\\' || c == '\x27' then ['\\', c] else [c]) = escape cs := by
    intro cs
    induction cs with
    | nil => rfl
    | cons c cs ih =>
      rw [List.flatMap_cons, ih, escape_cons]
      simp
  rw [stringLiteral, String.toList_ofList, hescape, List.cons_append]

/-! ## Quotes that are not escaped -/

/-- How many backslashes a text ends with. -/
def finalBackslashes (cs : List Char) : Nat := (cs.rtakeWhile (· == '\\')).length

/-- A backslash at the end is one more. -/
theorem finalBackslashes_concat_self (cs : List Char) :
    finalBackslashes (cs ++ ['\\']) = finalBackslashes cs + 1 := by
  rw [finalBackslashes, List.rtakeWhile_concat_pos _ _ _ rfl, List.length_append]
  rfl

/-- Behind any other character there are none. -/
theorem finalBackslashes_concat {c : Char} (hc : c ≠ '\\') (cs : List Char) :
    finalBackslashes (cs ++ [c]) = 0 := by
  rw [finalBackslashes, List.rtakeWhile_concat_neg _ _ _ (by simpa using hc)]
  rfl

/-- A text opens and closes with a quote, and of the quotes after the first only the last one has an
even number of backslashes right before it. -/
def ClosesOnce (cs : List Char) : Prop :=
  ∃ body, cs = '\x27' :: (body ++ ['\x27']) ∧
    ∀ before after, body ++ ['\x27'] = before ++ '\x27' :: after →
      (Even (finalBackslashes before) ↔ after = [])

/-- After a text that ends with an even number of backslashes, an escaped character leaves their
number even. -/
theorem even_finalBackslashes_special {start : List Char} (hstart : Even (finalBackslashes start))
    {c : Char} (hc : c = '\\' ∨ c = '\x27') : Even (finalBackslashes (start ++ ['\\', c])) := by
  have hsplit : start ++ ['\\', c] = start ++ ['\\'] ++ [c] := by simp
  rw [hsplit]
  obtain rfl | rfl := hc
  · rw [finalBackslashes_concat_self, finalBackslashes_concat_self, Nat.even_add_one, Nat.even_add_one]
    exact not_not.mpr hstart
  · rw [finalBackslashes_concat (by decide)]
    exact Even.zero

/-- After a text that ends with an even number of backslashes, an escaped text ends with an even
number of them again, and every quote in it comes after an odd number. -/
theorem escape_parity {start : List Char} (hstart : Even (finalBackslashes start)) (cs : List Char) :
    Even (finalBackslashes (start ++ escape cs)) ∧
      ∀ before after, escape cs = before ++ '\x27' :: after →
        ¬Even (finalBackslashes (start ++ before)) := by
  -- By induction on the text for every start, since runs of backslashes go on over what was escaped
  -- before.
  induction cs generalizing start with
  | nil =>
    rw [escape_nil, List.append_nil]
    refine ⟨hstart, fun before after hsplit => ?_⟩
    simp at hsplit
  | cons c cs ih =>
    by_cases hc : c = '\\' ∨ c = '\x27'
    · rw [escape_cons_special hc]
      obtain ⟨heven, hodd⟩ := ih (even_finalBackslashes_special hstart hc)
      refine ⟨by simpa using heven, fun before after hsplit => ?_⟩
      match before with
      | [] => cases hsplit
      | [x] =>
        obtain ⟨rfl, -⟩ := List.cons_eq_cons.mp hsplit
        rw [finalBackslashes_concat_self, Nat.even_add_one]
        exact not_not.mpr hstart
      | x :: y :: before =>
        obtain ⟨rfl, htail⟩ := List.cons_eq_cons.mp hsplit
        obtain ⟨rfl, hrest⟩ := List.cons_eq_cons.mp htail
        simpa using hodd before after hrest
    · obtain ⟨hslash, hquote⟩ := not_or.mp hc
      rw [escape_cons_plain hc]
      have hnext : Even (finalBackslashes (start ++ [c])) := by
        rw [finalBackslashes_concat hslash]
        exact Even.zero
      obtain ⟨heven, hodd⟩ := ih hnext
      refine ⟨by simpa using heven, fun before after hsplit => ?_⟩
      match before with
      | [] => exact absurd (List.cons_eq_cons.mp hsplit).1 hquote
      | x :: before =>
        obtain ⟨rfl, hrest⟩ := List.cons_eq_cons.mp hsplit
        simpa using hodd before after hrest

/-- The closing quote of a written string is its only unescaped one after the opening one. -/
theorem closesOnce_stringLiteral (s : String) : ClosesOnce (stringLiteral s).toList := by
  have hopening : Even (finalBackslashes []) := Even.zero
  obtain ⟨heven, hodd⟩ := escape_parity hopening s.toList
  refine ⟨escape s.toList, toList_stringLiteral s, fun before after hsplit => ?_⟩
  obtain rfl | ⟨rest, last, rfl⟩ := List.eq_nil_or_concat after
  · obtain ⟨rfl, -⟩ := List.append_inj' hsplit rfl
    exact iff_of_true heven rfl
  · rw [List.concat_eq_append] at hsplit ⊢
    rw [← List.cons_append, ← List.append_assoc] at hsplit
    obtain ⟨hbody, -⟩ := List.append_inj' hsplit rfl
    exact iff_of_false (hodd before rest hbody) (List.concat_ne_nil last rest)

end ChainScript
