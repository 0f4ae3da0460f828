import ChainScript.Number.Binary64

/-!
# The shortest decimal of a binary number

The decimal that is printed for a `Binary64` is the one with the fewest digits among those that read
back to the same value, and among those of that length the one nearest to it. `ReadBack.holds` is
the test, stated on the mantissa and the exponent alone: a decimal reads back when it lies between
the halfway points to the two neighbours, ends included exactly when the mantissa is even. The
search tries one grid of decimals after the other, coarsest first.
-/

namespace ChainScript

/-- The decimal number `digits * 10 ^ exponent`. -/
structure Decimal where
  digits : Nat
  exponent : Int
deriving DecidableEq

namespace Decimal

/-- Compares a decimal with `n * 2 ^ q`, exactly. -/
def compareBinary (d : Decimal) (n : Nat) (q : Int) : Ordering :=
  compare (d.digits * Nat.pow 10 d.exponent.toNat * Nat.pow 2 (-q).toNat)
    (n * Nat.pow 2 q.toNat * Nat.pow 10 (-d.exponent).toNat)

/-- Moves trailing zeros from the digits to the exponent, at most as many as the first argument. -/
def strip : Nat → Decimal → Decimal
  | 0, d => d
  | n + 1, d =>
    if d.digits % 10 = 0 ∧ d.digits ≠ 0 then strip n ⟨d.digits / 10, d.exponent + 1⟩ else d

end Decimal

namespace Binary64

/-- Whether `d` lies among the numbers that round to `m * 2 ^ q`. The gap to the value below is half
as wide as the one above when `m` is the least mantissa with its leading bit set and `q` is not the
least exponent. -/
def readsBack (m : Nat) (q : Int) (d : Decimal) : Bool :=
  let low := if m = Nat.pow 2 52 ∧ q ≠ -1074 then 4 * m - 1 else 4 * m - 2
  let high := 4 * m + 2
  let closed := m % 2 = 0
  let atLow := d.compareBinary low (q - 2)
  let atHigh := d.compareBinary high (q - 2)
  (atLow == .gt || (closed && atLow == .eq)) && (atHigh == .lt || (closed && atHigh == .eq))

/-- The least power of ten above `m * 2 ^ q`, for a positive `m`. The binary logarithm gives it to
within one. -/
def decimalScale (m : Nat) (q : Int) : Int :=
  let guess : Int := ((m.log2 : Int) + q) * 30103 / 100000
  ([guess - 1, guess, guess + 1].find? fun k =>
    (Decimal.mk 1 k).compareBinary m q == .gt).getD (guess + 2)

/-- The better of the two neighbours of `m * 2 ^ q` among the multiples of `10 ^ grid`, if one of
them reads back. Of two that do, the nearer is taken, and the even one at a tie. -/
def onGrid (m : Nat) (q : Int) (grid : Int) : Option Decimal :=
  let num := m * Nat.pow 2 q.toNat * Nat.pow 10 (-grid).toNat
  let den := Nat.pow 2 (-q).toNat * Nat.pow 10 grid.toNat
  let below := num / den
  let takeBelow := readsBack m q ⟨below, grid⟩
  let takeAbove := readsBack m q ⟨below + 1, grid⟩
  if takeBelow && takeAbove then
    -- Both neighbours read back, so the nearer one is chosen.
    match compare (2 * num) ((2 * below + 1) * den) with
    | .lt => some ⟨below, grid⟩
    | .gt => some ⟨below + 1, grid⟩
    | .eq => some ⟨if below % 2 = 0 then below else below + 1, grid⟩
  else if takeBelow then some ⟨below, grid⟩
  else if takeAbove then some ⟨below + 1, grid⟩
  else none

/-- The decimal of `m * 2 ^ q` with the fewest digits, for a positive `m`. Seventeen digits always
suffice; were they not to, the exact value would stand. -/
def shortest (m : Nat) (q : Int) : Decimal :=
  let scale := decimalScale m q
  let found := (List.range 17).findSome? fun (n : Nat) => onGrid m q (scale - (n + 1))
  let d := found.getD ⟨m * Nat.pow 2 q.toNat * Nat.pow 5 (-q).toNat, if q < 0 then q else 0⟩
  d.strip 20

end Binary64

/-- How a selected decimal is laid out: from which power of ten of the leading digit up to which it
is written without an exponent, and how many digits an exponent has at least. -/
structure DecimalLayout where
  plainFrom : Int
  plainBelow : Int
  exponentWidth : Nat

namespace DecimalLayout

/-- Numbers are written plainly from one ten-thousandth up to ten to the sixteenth, and otherwise
with a signed exponent of two digits. -/
def standard : DecimalLayout where
  plainFrom := -4
  plainBelow := 16
  exponentWidth := 2

/-- The given number of zeros. -/
def zeros (n : Nat) : String := String.ofList (List.replicate n '0')

/-- A signed exponent, padded to the width of the layout. -/
def exponentText (layout : DecimalLayout) (e : Int) : String :=
  let digits := toString e.natAbs
  (if e < 0 then "-" else "+") ++ zeros (layout.exponentWidth - digits.length) ++ digits

/-- The text of a positive decimal. A number without an exponent always shows a decimal point. -/
def write (layout : DecimalLayout) (d : Decimal) : String :=
  let digits := (toString d.digits).toList
  let leading : Int := d.exponent + digits.length - 1
  if layout.plainFrom ≤ leading ∧ leading < layout.plainBelow then
    if leading < 0 then
      "0." ++ zeros (-leading - 1).toNat ++ String.ofList digits
    else
      let whole := leading.toNat + 1
      if digits.length ≤ whole then
        String.ofList digits ++ zeros (whole - digits.length) ++ ".0"
      else
        String.ofList (digits.take whole) ++ "." ++ String.ofList (digits.drop whole)
  else
    let fraction := digits.drop 1
    String.ofList (digits.take 1)
      ++ (if fraction.isEmpty then "" else "." ++ String.ofList fraction)
      ++ "e" ++ layout.exponentText leading

end DecimalLayout

/-- The text of a floating-point number. The sign of zero is kept. -/
def Binary64.text : Binary64 → String
  | .nan => "nan"
  | .infinite negative => if negative then "-inf" else "inf"
  | .finite negative m q _ =>
    (if negative then "-" else "")
      ++ if m = 0 then "0.0" else DecimalLayout.standard.write (Binary64.shortest m q)

end ChainScript
