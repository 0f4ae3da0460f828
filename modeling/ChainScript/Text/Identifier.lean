import ChainScript.Text.IdentifierTable

/-!
# Identifiers

A name that can be written after a dot is an identifier: a letter or an underscore, and then
letters, digits, combining marks and underscores, of any script.
-/

namespace ChainScript

/-- Whether a number lies in one of the ranges, ends included. -/
def inRanges (n : Nat) (ranges : List (Nat × Nat)) : Bool :=
  ranges.any fun (low, high) => low ≤ n && n ≤ high

/-- Whether a character may open an identifier. -/
def isIdentifierStart (c : Char) : Bool :=
  if c.toNat < 128 then c.isAlpha || c == '_' else inRanges c.toNat identifierStartRanges

/-- Whether a character may stand inside an identifier. -/
def isIdentifierPart (c : Char) : Bool :=
  isIdentifierStart c
    || if c.toNat < 128 then c.isDigit else inRanges c.toNat identifierExtendRanges

/-- Whether a text is an identifier. -/
def isIdentifier (s : String) : Bool :=
  match s.toList with
  | [] => false
  | c :: cs => isIdentifierStart c && cs.all isIdentifierPart

end ChainScript
