import ChainScript.Number.Binary64
import ChainScript.Text.Blank
import ChainScript.Text.DecimalDigit

/-!
# Numbers as they are written

A numeral is read as a whole number if it can be, and as a binary floating-point number otherwise.
Blanks may surround it, a sign may open it, and single underscores may stand between digits. The
digits of every script are digits. A whole number of more than 4300 digits is not read as one, which
leaves it to the floating-point form.
-/

namespace ChainScript

/-- The value of a written number. -/
inductive Numeral where
  | whole (n : Int)
  | binary (x : Binary64)
deriving DecidableEq

namespace Numeral

/-- The most digits that a whole number may have. -/
def wholeDigits : Nat := 4300

/-- The ASCII spelling of a character in a numeral that holds characters beyond ASCII: blanks become
spaces and digits of any script the ASCII ones. What is neither stays, and spoils the numeral. -/
def asciiChar (c : Char) : Char :=
  if c.toNat < 127 then c
  else if isBlank c then ' '
  else match decimalDigit? c with
    | some d => Nat.digitChar d
    | none => c

/-- The characters of a numeral, in ASCII and without the blanks around them. -/
def characters (s : String) : List Char :=
  let cs := s.toList
  -- A text that is all ASCII is taken as it is: its information separators are no blanks.
  trimBoth isAsciiBlank (if cs.all (·.toNat < 128) then cs else cs.map asciiChar)

/-- Splits off a sign. The flag says whether it was a minus. -/
def sign : List Char → Bool × List Char
  | '-' :: cs => (true, cs)
  | '+' :: cs => (false, cs)
  | cs => (false, cs)

/-- Removes the underscores, each of which must stand between two digits. The first argument says
whether a digit came just before. -/
def dropUnderscores : Bool → List Char → Option (List Char)
  | _, [] => some []
  | afterDigit, '_' :: c :: cs =>
    if afterDigit && c.isDigit then (dropUnderscores true cs).map (c :: ·) else none
  | _, ['_'] => none
  | _, c :: cs => (dropUnderscores c.isDigit cs).map (c :: ·)

/-- The number that a row of digits denotes. -/
def digitsValue (ds : List Char) : Nat :=
  ds.foldl (fun n d => 10 * n + (d.toNat - '0'.toNat)) 0

/-- A signed number from its sign and its size. -/
def signed (negative : Bool) (n : Nat) : Int :=
  if negative then -n else n

/-- Reads a whole number. -/
def whole? (cs : List Char) : Option Int :=
  let (negative, body) := sign cs
  match dropUnderscores false body with
  | some digits =>
    if digits.isEmpty || !digits.all Char.isDigit || wholeDigits < digits.length then none
    else some (signed negative (digitsValue digits))
  | none => none

/-- Reads the exponent at the end of a numeral, where it may be missing. -/
def exponent? : List Char → Option Int
  | [] => some 0
  | e :: cs =>
    if e == 'e' || e == 'E' then
      let (negative, digits) := sign cs
      if digits.isEmpty || !digits.all Char.isDigit then none
      else some (signed negative (digitsValue digits))
    else none

/-- Reads a floating-point number from digits, a point and an exponent. -/
def decimal? (negative : Bool) (cs : List Char) : Option Binary64 :=
  let whole := cs.takeWhile Char.isDigit
  let afterWhole := cs.dropWhile Char.isDigit
  let (fraction, tail) := match afterWhole with
    | '.' :: ds => (ds.takeWhile Char.isDigit, ds.dropWhile Char.isDigit)
    | ds => ([], ds)
  if whole.isEmpty && fraction.isEmpty then none
  else (exponent? tail).map fun e =>
    Binary64.ofDecimal negative (digitsValue (whole ++ fraction)) (e - fraction.length)

/-- Reads a floating-point number, by name where it is infinite or not a number. -/
def binary? (cs : List Char) : Option Binary64 :=
  match dropUnderscores false cs with
  | some cs =>
    let (negative, body) := sign cs
    let word := String.ofList (body.map Char.toLower)
    if word == "inf" || word == "infinity" then some (.infinite negative)
    else if word == "nan" then some .nan
    else decimal? negative body
  | none => none

/-- Reads a numeral. -/
def read? (s : String) : Option Numeral :=
  let cs := characters s
  match whole? cs with
  | some n => some (.whole n)
  | none => (binary? cs).map .binary

end Numeral

end ChainScript
