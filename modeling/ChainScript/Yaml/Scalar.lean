import ChainScript.Number.Numeral

/-!
# YAML documents and plain scalars

A document is made of scalars, lists and mappings. A scalar that is written without quotes is given
a type by its spelling: the words for nothing and for the truth values, whole numbers in base two,
eight, ten, sixteen and sixty, and decimal fractions. Every other spelling is text.
-/

namespace ChainScript

/-- A YAML document. -/
inductive Yaml where
  | null
  | bool (b : Bool)
  | int (n : Int)
  | float (x : Binary64)
  | str (s : String)
  | list (items : List Yaml)
  | mapping (entries : List (Yaml × Yaml))
deriving Inhabited

namespace Yaml

/-- A word in lower case, with a capital, or in upper case. -/
def spellings (word : String) : List String := [word, word.capitalize, word.toUpper]

/-- The truth value that a word spells. -/
def boolWord? (s : String) : Option Bool :=
  if ["yes", "true", "on"].any fun word => (spellings word).contains s then some true
  else if ["no", "false", "off"].any fun word => (spellings word).contains s then some false
  else none

/-- Splits off a sign. The flag says whether it was a minus. -/
def sign : List Char → Bool × List Char
  | '-' :: cs => (true, cs)
  | '+' :: cs => (false, cs)
  | cs => (false, cs)

/-- The value of a digit in any base up to sixteen. -/
def digit? (c : Char) : Option Nat :=
  if c.isDigit then some (c.toNat - 48)
  else if 'a' ≤ c ∧ c ≤ 'f' then some (c.toNat - 87)
  else if 'A' ≤ c ∧ c ≤ 'F' then some (c.toNat - 55)
  else none

/-- The number that digits denote in a base, underscores left out, if there are only such digits. -/
def inBase? (base : Nat) (cs : List Char) : Option Nat :=
  (cs.filter (· != '_')).foldl (fun n c => do
    let n ← n
    let d ← digit? c
    if d < base then some (base * n + d) else none) (some 0)

/-- The number that parts in base sixty denote, the last less significant than the others. -/
def sexagesimal (parts : List Nat) : Nat := parts.foldl (fun n part => 60 * n + part) 0

/-- Whether a part of a number in base sixty, other than the first, is below sixty. -/
def isSexagesimalPart : List Char → Bool
  | [c] => c.isDigit
  | [c, d] => '0' ≤ c && c ≤ '5' && d.isDigit
  | _ => false

/-- Reads an unsigned whole number. -/
def whole? (cs : List Char) : Option Nat :=
  let digits := fun (cs : List Char) => cs.all fun c => c.isDigit || c == '_'
  match cs with
  | ['0'] => some 0
  | '0' :: 'b' :: c :: rest => inBase? 2 (c :: rest)
  | '0' :: 'x' :: c :: rest => inBase? 16 (c :: rest)
  -- A number that opens with zero is octal, so digits above seven make it text.
  | '0' :: rest => inBase? 8 rest
  | c :: _ =>
    if !c.isDigit then none
    else if digits cs then inBase? 10 cs
    else match cs.splitOn ':' with
      | first :: rest =>
        if digits first && rest.all isSexagesimalPart then do
          let parts ← (first :: rest).mapM (inBase? 10)
          some (sexagesimal parts)
        else none
      | [] => none
  | [] => none

/-- Reads the exponent of a fraction, which has a sign. -/
def exponent? : List Char → Option Int
  | [] => some 0
  | e :: s :: c :: rest =>
    if (e == 'e' || e == 'E') && (s == '-' || s == '+') && (c :: rest).all Char.isDigit then
      some (Numeral.signed (s == '-') (Numeral.digitsValue (c :: rest)))
    else none
  | _ => none

/-- Reads a fraction, which has a decimal point, from what follows its sign. Only a fraction that
has no sign may begin with the point. -/
def fraction? (signed negative : Bool) (cs : List Char) : Option Binary64 :=
  let isPart := fun (c : Char) => c.isDigit || c == '_'
  let whole := cs.takeWhile isPart
  match cs.dropWhile isPart with
  | '.' :: afterPoint =>
    let places := (afterPoint.takeWhile isPart).filter (· != '_')
    let opened := match whole, afterPoint with
      | c :: _, _ => c.isDigit
      | [], c :: _ => c.isDigit && !signed
      | [], [] => false
    if !opened then none
    else do
      let e ← exponent? (afterPoint.dropWhile isPart)
      let digits := whole.filter (· != '_') ++ places
      some (Binary64.ofDecimal negative (Numeral.digitsValue digits) (e - places.length))
  | _ => none

/-- The scalar that a spelling without quotes denotes. -/
def ofPlain (s : String) : Yaml :=
  let (negative, body) := sign s.toList
  if s == "" || s == "~" || (spellings "null").contains s then .null
  else match boolWord? s with
    | some b => .bool b
    | none =>
      let word := String.ofList body
      if [".inf", ".Inf", ".INF"].contains word then .float (.infinite negative)
      else if [".nan", ".NaN", ".NAN"].contains s then .float .nan
      else match whole? body with
        | some n => .int (Numeral.signed negative n)
        | none =>
          match fraction? (body.length < s.length) negative body with
          | some x => .float x
          | none => .str s

end Yaml

end ChainScript
