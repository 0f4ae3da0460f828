import ChainScript.Text.Blank

/-!
# Quoted text

A string in a diagnostic stands between quotes with its special characters escaped. The quotes are
single ones, unless the string holds a single quote and no double one. A character that would not
show is written by its code point.
-/

namespace ChainScript

/-- The last hexadecimal digits of a number, at the given count. -/
def hexDigits (count n : Nat) : List Char :=
  match count with
  | 0 => []
  | count + 1 => hexDigits count (n / 16) ++ [Nat.digitChar (n % 16)]

/-- Whether a character shows nothing when it is written: controls, blanks other than the space, and
the marks that only direct the layout of their neighbours. -/
def isUnprintable (c : Char) : Bool :=
  let n := c.toNat
  n < 32 || (127 ≤ n && n ≤ 0xA0) || n == 0xAD || (isBlank c && c != ' ')
    || (0x200B ≤ n && n ≤ 0x200F) || (0x202A ≤ n && n ≤ 0x202E) || (0x2060 ≤ n && n ≤ 0x206F)
    || (0xE000 ≤ n && n ≤ 0xF8FF) || n == 0xFEFF

/-- One character inside the given quotes. -/
def quotedChar (quote c : Char) : List Char :=
  if c == quote || c == '\\' then ['\\', c]
  else if c == '\n' then ['\\', 'n']
  else if c == '\r' then ['\\', 'r']
  else if c == '\t' then ['\\', 't']
  else if isUnprintable c then
    if c.toNat < 0x100 then '\\' :: 'x' :: hexDigits 2 c.toNat
    else if c.toNat < 0x10000 then '\\' :: 'u' :: hexDigits 4 c.toNat
    else '\\' :: 'U' :: hexDigits 8 c.toNat
  else [c]

/-- The quotes that suit a text: double ones only where they save an escape. -/
def quoteFor (cs : List Char) : Char :=
  if cs.contains '\x27' && !cs.contains '\"' then '\"' else '\x27'

/-- A text in quotes. -/
def quoted (s : String) : String :=
  let quote := quoteFor s.toList
  String.ofList (quote :: s.toList.flatMap (quotedChar quote) ++ [quote])

end ChainScript
