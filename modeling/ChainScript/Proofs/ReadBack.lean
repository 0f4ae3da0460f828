import ChainScript.Number.Numeral
import ChainScript.Proofs.Datum
import ChainScript.Proofs.Escape

/-!
# Reading data back

The text of a datum tells all of it. A `DatumReader` goes through a text one character at a time and
keeps the lists that are still open, with their items so far, and the part of an item that it has
read.

The step lemmas say what a reader makes of the parts of a text: the letters of a word, the
characters of an escaped string, a comma and a bracket. From them follows what it makes of the text
of a datum, by induction on the datum: wherever it begins with that text, it has read that datum at
its end and left the lists around it as they were (`DatumReader.run_text`). So each text can be read
back to the one datum that is written so, and no string can imitate the list around it.
-/

namespace ChainScript

/-! ## The reader -/

/-- What has been read of an item: nothing yet, a word up to some letter, a string up to some
character, with whether a backslash escapes the next one, or all of it. -/
inductive PartRead where
  | nothing
  | word (letters : List Char)
  | quoted (cs : List Char) (escaping : Bool)
  | whole (d : Datum)

/-- A reader of data: the items so far of the lists that are still open, innermost list first, and
what has been read of the next item. -/
structure DatumReader where
  outer : List (List Datum)
  part : PartRead

/-- Whether a character stands in a word, that is in the name of a datum or in a number. -/
def isWordLetter (c : Char) : Bool := c.isAlphanum || c == '-'

/-- The whole number that a word is the text of. -/
def wholeNumber? (letters : List Char) : Option Int :=
  let (negative, digits) := Numeral.sign letters
  if digits.isEmpty || !digits.all Char.isDigit then none
  else some (Numeral.signed negative (Numeral.digitsValue digits))

/-- The datum that a word names. -/
def Datum.ofWord? (letters : List Char) : Option Datum :=
  if letters = "null".toList then some .null
  else if letters = "undefined".toList then some .undefined
  else if letters = "true".toList then some (.bool true)
  else if letters = "false".toList then some (.bool false)
  else (wholeNumber? letters).map .int

/-- The datum that has been read, if it is all there. -/
def PartRead.datum? : PartRead → Option Datum
  | .word letters => Datum.ofWord? letters
  | .whole d => some d
  | _ => none

namespace DatumReader

/-- Reads a character where nothing of an item has been read yet. -/
def beginItem (outer : List (List Datum)) (c : Char) : Option DatumReader :=
  if isWordLetter c then some ⟨outer, .word [c]⟩
  else match c, outer with
    | '\x27', _ => some ⟨outer, .quoted [] false⟩
    | '[', _ => some ⟨[] :: outer, .nothing⟩
    | ']', [] :: outer => some ⟨outer, .whole (.list [])⟩
    | ' ', _ :: _ => some ⟨outer, .nothing⟩
    | _, _ => none

/-- Reads a character inside quotes. -/
def withinQuotes (outer : List (List Datum)) (cs : List Char) (escaping : Bool) (c : Char) : DatumReader :=
  if escaping then ⟨outer, .quoted (cs ++ [c]) false⟩
  else if c = '\\' then ⟨outer, .quoted cs true⟩
  else if c = '\x27' then ⟨outer, .whole (.str (String.ofList cs))⟩
  else ⟨outer, .quoted (cs ++ [c]) false⟩

/-- Reads a character that ends an item of the innermost list. -/
def endItem (outer : List (List Datum)) (d? : Option Datum) (c : Char) : Option DatumReader :=
  match outer, d?, c with
  | items :: outer, some d, ',' => some ⟨(items ++ [d]) :: outer, .nothing⟩
  | items :: outer, some d, ']' => some ⟨outer, .whole (.list (items ++ [d]))⟩
  | _, _, _ => none

/-- Reads a character. -/
def step (r : DatumReader) (c : Char) : Option DatumReader :=
  match r.part with
  | .nothing => beginItem r.outer c
  | .quoted cs escaping => some (withinQuotes r.outer cs escaping c)
  | .word letters =>
    if isWordLetter c then some { r with part := .word (letters ++ [c]) }
    else endItem r.outer r.part.datum? c
  | .whole _ => endItem r.outer r.part.datum? c

/-- Reads a text. -/
def run (r : DatumReader) (cs : List Char) : Option DatumReader := cs.foldlM step r

/-- The datum that has been read, if no list is open. -/
def result? (r : DatumReader) : Option Datum :=
  match r.outer with
  | [] => r.part.datum?
  | _ => none

end DatumReader

/-- The datum that a text is the text of. -/
def Datum.read? (s : String) : Option Datum :=
  (DatumReader.run ⟨[], .nothing⟩ s.toList).bind DatumReader.result?

namespace DatumReader

variable {outer : List (List Datum)}

/-- A reader that is given no text stays as it is. -/
@[simp] theorem run_nil (r : DatumReader) : r.run [] = some r := rfl

/-- It goes on from each character to the rest of the text. -/
theorem run_cons {r next : DatumReader} {c : Char} (hc : r.step c = some next) (cs : List Char) :
    r.run (c :: cs) = next.run cs := by
  rw [run, List.foldlM_cons, hc]
  rfl

/-- It reads the halves of a text one after the other. -/
theorem run_append {r next : DatumReader} {xs : List Char} (hxs : r.run xs = some next)
    (ys : List Char) : r.run (xs ++ ys) = next.run ys := by
  rw [run] at hxs
  rw [run, List.foldlM_append, hxs]
  rfl

/-! ## Words -/

/-- A letter of a word is added to the word. -/
theorem step_word {c : Char} (hc : isWordLetter c = true) (letters : List Char) :
    step ⟨outer, .word letters⟩ c = some ⟨outer, .word (letters ++ [c])⟩ := by
  rw [step]
  exact if_pos hc

/-- The letters of a word are read one after another. -/
theorem run_word {cs : List Char} (hcs : ∀ c ∈ cs, isWordLetter c = true) (letters : List Char) :
    run ⟨outer, .word letters⟩ cs = some ⟨outer, .word (letters ++ cs)⟩ := by
  induction cs generalizing letters with
  | nil => rw [run_nil, List.append_nil]
  | cons c cs ih =>
    rw [run_cons (step_word (hcs c List.mem_cons_self) letters),
      ih fun x hx => hcs x (List.mem_cons_of_mem _ hx), List.append_assoc, List.singleton_append]

/-- A word is read where an item begins. -/
theorem run_begin_word {cs : List Char} (hcs : ∀ c ∈ cs, isWordLetter c = true) (hne : cs ≠ []) :
    run ⟨outer, .nothing⟩ cs = some ⟨outer, .word cs⟩ := by
  obtain ⟨c, cs, rfl⟩ := List.exists_cons_of_ne_nil hne
  have hbegin : step ⟨outer, .nothing⟩ c = some ⟨outer, .word [c]⟩ := if_pos (hcs c List.mem_cons_self)
  rw [run_cons hbegin, run_word fun x hx => hcs x (List.mem_cons_of_mem _ hx)]
  rfl

/-! ## Strings -/

/-- An escaped character is added to the quoted text. -/
theorem step_escaped (cs : List Char) (c : Char) :
    step ⟨outer, .quoted cs true⟩ c = some ⟨outer, .quoted (cs ++ [c]) false⟩ := rfl

/-- A backslash in a quoted text escapes what follows. -/
theorem step_backslash (cs : List Char) :
    step ⟨outer, .quoted cs false⟩ '\\' = some ⟨outer, .quoted cs true⟩ := rfl

/-- Any other character but the quote is added as it is. -/
theorem step_quoted {c : Char} (hc : ¬(c = '\\' ∨ c = '\x27')) (cs : List Char) :
    step ⟨outer, .quoted cs false⟩ c = some ⟨outer, .quoted (cs ++ [c]) false⟩ := by
  obtain ⟨hslash, hquote⟩ := not_or.mp hc
  simp only [step, withinQuotes, if_neg hslash, if_neg hquote, Bool.false_eq_true, if_false]

/-- An escaped text is read as the text that it stands for, inside the quotes still. -/
theorem run_escape (seen cs : List Char) :
    run ⟨outer, .quoted seen false⟩ (escape cs) = some ⟨outer, .quoted (seen ++ cs) false⟩ := by
  induction cs generalizing seen with
  | nil => rw [escape_nil, List.append_nil, run_nil]
  | cons c cs ih =>
    -- Escaped or not, the character joins those seen, and the rest is read from there.
    have hcs := ih (seen ++ [c])
    rw [List.append_assoc, List.singleton_append] at hcs
    by_cases hc : c = '\\' ∨ c = '\x27'
    · rw [escape_cons_special hc, run_cons (step_backslash seen), run_cons (step_escaped seen c), hcs]
    · rw [escape_cons_plain hc, run_cons (step_quoted hc seen), hcs]

/-- A written string is read where an item begins. -/
theorem run_stringLiteral (s : String) :
    run ⟨outer, .nothing⟩ (stringLiteral s).toList = some ⟨outer, .whole (.str s)⟩ := by
  have hopen : step ⟨outer, .nothing⟩ '\x27' = some ⟨outer, .quoted [] false⟩ := rfl
  have hclose : step ⟨outer, .quoted s.toList false⟩ '\x27'
      = some ⟨outer, .whole (.str (String.ofList s.toList))⟩ := rfl
  rw [toList_stringLiteral, run_cons hopen, run_append (run_escape [] s.toList), List.nil_append,
    run_cons hclose, String.ofList_toList]
  rfl

end DatumReader

/-! ## Numbers -/

/-- The numeral of a natural number is made of digits. -/
theorem isDigit_of_mem_repr {k : Nat} {c : Char} (hc : c ∈ k.repr.toList) : c.isDigit = true := by
  rw [Nat.toList_repr] at hc
  exact Nat.isDigit_of_mem_toDigits (by decide) (by decide) hc

/-- The numeral of a natural number is not empty. -/
theorem toList_repr_ne_nil (k : Nat) : k.repr.toList ≠ [] := by
  rw [Nat.toList_repr]
  exact Nat.toDigits_ne_nil

/-- The numeral of a natural number has the number for its value. -/
theorem digitsValue_repr (k : Nat) : Numeral.digitsValue k.repr.toList = k := by
  rw [Nat.toList_repr, Numeral.digitsValue, ← Nat.ofDigitChars_eq_foldl]
  exact Nat.ofDigitChars_ten_toDigits

/-- The text of a whole number is its digits, after a minus where it is negative. -/
theorem toList_toString_int (n : Int) :
    (toString n).toList = n.toNat.repr.toList ∧ n = n.toNat
      ∨ (toString n).toList = '-' :: (-n).toNat.repr.toList ∧ n = -((-n).toNat : Int) := by
  rw [Int.toString_eq_repr, Int.repr_eq_if]
  by_cases hn : 0 ≤ n
  · rw [if_pos hn]
    exact .inl ⟨rfl, by omega⟩
  · rw [if_neg hn, String.toList_append]
    exact .inr ⟨rfl, by omega⟩

/-- A digit is no sign. -/
theorem sign_repr (k : Nat) : Numeral.sign k.repr.toList = (false, k.repr.toList) := by
  obtain ⟨c, cs, hcs⟩ := List.exists_cons_of_ne_nil (toList_repr_ne_nil k)
  -- The text begins with a digit, which neither of the signs is.
  have hc : c.isDigit = true := isDigit_of_mem_repr (hcs ▸ List.mem_cons_self)
  rw [hcs]
  unfold Numeral.sign
  split
  · next heq => cases heq; cases hc
  · next heq => cases heq; cases hc
  · rfl

/-- Whole numbers are read from their texts. -/
theorem wholeNumber?_toString (n : Int) : wholeNumber? (toString n).toList = some n := by
  have hdigits : ∀ k : Nat,
      (k.repr.toList.isEmpty || !k.repr.toList.all Char.isDigit) = false := by
    intro k
    have hempty : k.repr.toList.isEmpty = false := List.isEmpty_eq_false_iff.mpr (toList_repr_ne_nil k)
    have hall : k.repr.toList.all Char.isDigit = true :=
      List.all_eq_true.mpr fun _ hc => isDigit_of_mem_repr hc
    rw [hempty, hall]
    rfl
  obtain ⟨htext, hn⟩ | ⟨htext, hn⟩ := toList_toString_int n
  · rw [wholeNumber?, htext, sign_repr]
    simp only [hdigits, digitsValue_repr]
    exact congrArg some hn.symm
  · have hsign : Numeral.sign ('-' :: (-n).toNat.repr.toList) = (true, (-n).toNat.repr.toList) := rfl
    rw [wholeNumber?, htext, hsign]
    simp only [hdigits, digitsValue_repr]
    exact congrArg some hn.symm

/-- The text of a whole number is a word. -/
theorem isWordLetter_of_mem_toString {n : Int} {c : Char} (hc : c ∈ (toString n).toList) :
    isWordLetter c = true := by
  have hdigit : ∀ k : Nat, c ∈ k.repr.toList → isWordLetter c = true := by
    intro k hk
    simp [isWordLetter, Char.isAlphanum, isDigit_of_mem_repr hk]
  obtain ⟨htext, -⟩ | ⟨htext, -⟩ := toList_toString_int n
  · exact hdigit _ (htext ▸ hc)
  · rw [htext] at hc
    obtain rfl | hk := List.mem_cons.mp hc
    · rfl
    · exact hdigit _ hk

/-- Nor is the numeral of an integer. -/
theorem toList_toString_ne_nil (n : Int) : (toString n).toList ≠ [] := by
  obtain ⟨htext, -⟩ | ⟨htext, -⟩ := toList_toString_int n
  · rw [htext]
    exact toList_repr_ne_nil _
  · rw [htext]
    exact List.cons_ne_nil _ _

/-! ## Data -/

/-- Between two texts there are a comma and a space. -/
theorem toList_commaSeparated_cons (s t : String) (texts : List String) :
    (commaSeparated (s :: t :: texts)).toList
      = s.toList ++ ',' :: ' ' :: (commaSeparated (t :: texts)).toList := by
  rw [commaSeparated, String.intercalate_cons_cons, String.toList_append, String.toList_append,
    List.append_assoc]
  rfl

namespace Datum

/-- What has been read when the text of a datum has been. A word may still go on. -/
def asRead : Datum → PartRead
  | .str s => .whole (.str s)
  | .list items => .whole (.list items)
  | d => .word d.text.toList

/-- The text of a whole number names nothing else. -/
theorem ofWord?_toString (n : Int) : ofWord? (toString n).toList = some (.int n) := by
  -- A word that is no number is not the text of one.
  have hne : ∀ {word : List Char}, wholeNumber? word = none → (toString n).toList ≠ word := by
    intro word hword heq
    rw [← heq, wholeNumber?_toString] at hword
    cases hword
  rw [ofWord?, if_neg (hne rfl), if_neg (hne rfl), if_neg (hne rfl), if_neg (hne rfl),
    wholeNumber?_toString]
  rfl

/-- A datum is known from what has been read of its text. -/
theorem datum?_asRead : ∀ d : Datum, d.asRead.datum? = some d
  | .str _ | .list _ | .null | .undefined | .bool true | .bool false => rfl
  | .int n => ofWord?_toString n

end Datum

namespace DatumReader

variable {outer : List (List Datum)}

/-- A character that stands in no word ends a datum. -/
theorem step_asRead (d : Datum) {c : Char} (hc : isWordLetter c = false) :
    step ⟨outer, d.asRead⟩ c = endItem outer (some d) c := by
  rw [← d.datum?_asRead]
  cases d with
  | str | list => rfl
  | _ => exact if_neg (Bool.eq_false_iff.mp hc)

mutual

/-- The text of a datum is read as that datum, wherever an item begins. -/
theorem run_text (outer : List (List Datum)) :
    ∀ d : Datum, run ⟨outer, .nothing⟩ d.text.toList = some ⟨outer, d.asRead⟩
  | .null | .undefined | .bool true | .bool false =>
    run_begin_word (List.all_eq_true.mp rfl) (List.cons_ne_nil _ _)
  | .int n => run_begin_word (fun _ => isWordLetter_of_mem_toString) (toList_toString_ne_nil n)
  | .str s => run_stringLiteral s
  | .list items => by
    rw [Datum.text, String.toList_append, String.toList_append]
    exact run_items outer [] items fun _ => rfl

/-- The texts of items are read in order up to the bracket that closes their list. -/
theorem run_items (outer : List (List Datum)) (seen : List Datum) : ∀ items : List Datum,
    (items = [] → seen = []) →
      run ⟨seen :: outer, .nothing⟩ ((commaSeparated (Datum.texts items)).toList ++ [']'])
        = some ⟨outer, .whole (.list (seen ++ items))⟩
  | [], hseen => by
    -- A bracket where an item should begin closes an empty list only.
    obtain rfl := hseen rfl
    rfl
  | [d], _ => by
    have htexts : commaSeparated (Datum.texts [d]) = d.text := String.intercalate_singleton
    have hbracket : step ⟨seen :: outer, d.asRead⟩ ']' = some ⟨outer, .whole (.list (seen ++ [d]))⟩ :=
      step_asRead d rfl
    rw [htexts, run_append (run_text _ d), run_cons hbracket, run_nil]
  | d :: next :: items, _ => by
    -- The comma ends the first item. The others are read after the space, with it among those seen.
    have hcomma : step ⟨seen :: outer, d.asRead⟩ ',' = some ⟨(seen ++ [d]) :: outer, .nothing⟩ :=
      step_asRead d rfl
    have hspace : step ⟨(seen ++ [d]) :: outer, .nothing⟩ ' '
        = some ⟨(seen ++ [d]) :: outer, .nothing⟩ := rfl
    have hrest := run_items outer (seen ++ [d]) (next :: items) nofun
    rw [Datum.texts] at hrest
    rw [Datum.texts, Datum.texts, toList_commaSeparated_cons, List.append_assoc,
      run_append (run_text _ d), List.cons_append, run_cons hcomma, List.cons_append, run_cons hspace,
      hrest, List.append_assoc, List.singleton_append]

end

end DatumReader

/-- The text of a datum is read back as that datum. -/
theorem Datum.read?_text (d : Datum) : Datum.read? d.text = some d := by
  rw [Datum.read?, DatumReader.run_text, Option.bind_some, DatumReader.result?, d.datum?_asRead]

example : Datum.read? "[null, ['it\\'s', []], -12]"
    = some (.list [.null, .list [.str "it's", .list []], .int (-12)]) := rfl

/-- No two data have one text. -/
theorem Datum.text_injective : Function.Injective Datum.text := by
  intro d d' htext
  have hread := d.read?_text
  rw [htext, d'.read?_text] at hread
  exact (Option.some.inj hread).symm

/-! ## Printed values -/

/-- Of what unfolds to a datum, nothing is printed but the text of the datum. -/
theorem Heap.Unfolds.eq_text {h : Heap} {v : Value} {d : Datum} (hv : h.Unfolds v d) {depth : Nat}
    {width level : Int} {shown : Value}
    (hshown : h.renderWithin depth [] width level v = .ok shown) : shown = .str d.text := by
  rw [hv.renderWithin_eq width level depth] at hshown
  split at hshown
  · exact (Except.ok.inj hshown).symm
  · cases hshown

/-- Data are printed without ambiguity, at every level and however deep the printer may nest, of
which `Heap.printDepth` is one case. Wherever there is room for the lists of a value, the printer
comes to a text, and every text that it comes to is read back as the datum that the value unfolds
to. So two values, of one heap or of two, are printed alike exactly where they unfold to the same
datum. In the text of a string, the closing quote is the only one after the opening quote that is
not escaped. -/
theorem printed_data_reads_back {h h' : Heap} {v v' : Value} {d d' : Datum} (hv : h.Unfolds v d)
    (hv' : h'.Unfolds v' d') (width width' level level' : Int) :
    (∀ depth, d.room ≤ depth → ∃ t, h.renderWithin depth [] width level v = .ok (.str t))
      ∧ (∀ depth shown, h.renderWithin depth [] width level v = .ok shown →
        ∃ t, shown = .str t ∧ Datum.read? t = some d)
      ∧ (∀ depth depth' shown shown', h.renderWithin depth [] width level v = .ok shown →
        h'.renderWithin depth' [] width' level' v' = .ok shown' → (shown = shown' ↔ d = d'))
      ∧ ∀ s depth t, h.renderWithin depth [] width level (.str s) = .ok (.str t) →
        ClosesOnce t.toList := by
  refine ⟨fun depth hroom => ?_, fun depth shown hshown => ?_, ?_, fun s depth t ht => ?_⟩
  · refine ⟨d.text, ?_⟩
    rw [hv.renderWithin_eq width level depth, if_pos hroom]
    rfl
  · exact ⟨d.text, hv.eq_text hshown, d.read?_text⟩
  · intro depth depth' shown shown' hshown hshown'
    rw [hv.eq_text hshown, hv'.eq_text hshown', Value.str.injEq]
    exact Datum.text_injective.eq_iff
  · obtain rfl : t = stringLiteral s := Value.str.inj ((Heap.Unfolds.str s).eq_text ht)
    exact closesOnce_stringLiteral s

/-- A heap with a list of one string and a list of two, and each of them inside another list.
Escapes apart, the strings are written with the same characters. -/
def Heap.lookalikes : Heap where
  cells := #[
    ⟨.list [.str "a', 'b\\"], .empty⟩,
    ⟨.list [.str "a", .str "b\\"], .empty⟩,
    ⟨.list [.object 0, .bool true], .empty⟩,
    ⟨.list [.object 1, .bool true], .empty⟩]
  sharedAttributes := .empty
  classParts := .empty

/-- A string with a separator and quotes in it does not pass for two strings. -/
theorem lookalike_lists_are_told_apart :
    Heap.lookalikes.Unfolds (.object 2) (.list [.list [.str "a', 'b\\"], .bool true])
      ∧ Heap.lookalikes.Unfolds (.object 3) (.list [.list [.str "a", .str "b\\"], .bool true])
      ∧ Heap.lookalikes.render 2 0 (.object 2) = .ok (.str "[['a\\', \\'b\\\\'], true]")
      ∧ Datum.read? "[['a\\', \\'b\\\\'], true]"
        = some (.list [.list [.str "a', 'b\\"], .bool true])
      ∧ Heap.lookalikes.render 2 0 (.object 2) ≠ Heap.lookalikes.render 2 0 (.object 3) := by
  have hone : Heap.lookalikes.Unfolds (.object 2) (.list [.list [.str "a', 'b\\"], .bool true]) :=
    .list rfl (.cons (.list rfl (.cons (.str _) .nil)) (.cons (.bool true) .nil))
  have htwo : Heap.lookalikes.Unfolds (.object 3) (.list [.list [.str "a", .str "b\\"], .bool true]) :=
    .list rfl (.cons (.list rfl (.cons (.str _) (.cons (.str _) .nil))) (.cons (.bool true) .nil))
  have hprinted : Heap.lookalikes.render 2 0 (.object 2)
      = .ok (.str "[['a\\', \\'b\\\\'], true]") := rfl
  obtain ⟨-, hread, hsame, -⟩ := printed_data_reads_back hone htwo 2 2 0 0
  obtain ⟨t, ht, hback⟩ := hread _ _ hprinted
  obtain rfl := Value.str.inj ht
  refine ⟨hone, htwo, hprinted, hback, fun heq => ?_⟩
  have hdata := (hsame _ _ _ _ hprinted (heq ▸ hprinted)).mp rfl
  simp at hdata

end ChainScript
