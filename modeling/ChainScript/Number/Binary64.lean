/-!
# Binary floating-point numbers, exactly

A `Binary64` is a 64-bit floating-point value held as a sign, a whole mantissa and a power of two,
in the one normal form that the format gives it, so equal values are equal terms (the two zeros
apart). The language never adds or multiplies such numbers. It reads them from decimal text, prints
them, and compares them with whole numbers, and all three are done here and in the modules beside
this one by exact arithmetic on naturals.

`Binary64.ofFraction` rounds a quotient to nearest, ties to even, and `Binary64.toInt?` gives the
whole number that a value equals, when there is one.
-/

namespace ChainScript

/-- A mantissa and an exponent in normal form: 53 bits at most, the leading bit set unless the
exponent is the least one, and the exponent within the range of the format. -/
def IsNormal (mantissa : Nat) (exponent : Int) : Prop :=
  mantissa < Nat.pow 2 53 ∧ -1074 ≤ exponent ∧ exponent ≤ 971 ∧
    (Nat.pow 2 52 ≤ mantissa ∨ exponent = -1074)

instance (mantissa : Nat) (exponent : Int) : Decidable (IsNormal mantissa exponent) := by
  unfold IsNormal
  infer_instance

/-- A 64-bit binary floating-point value. A finite one is `± mantissa * 2 ^ exponent`. -/
inductive Binary64 where
  | nan
  | infinite (negative : Bool)
  | finite (negative : Bool) (mantissa : Nat) (exponent : Int)
      (normal : IsNormal mantissa exponent)
deriving DecidableEq

namespace Binary64

/-- The zero of the given sign. -/
def zero (negative : Bool) : Binary64 :=
  .finite negative 0 (-1074) (by decide)

instance : Inhabited Binary64 := ⟨.zero false⟩

/-- Whether the value is one of the two zeros. -/
def isZero : Binary64 → Bool
  | .finite _ mantissa _ _ => mantissa == 0
  | _ => false

/-- The quotient of `num` by `den` rounded to the nearest natural, a tie going to the even one. -/
def roundQuotient (num den : Nat) : Nat :=
  let q := num / den
  let r := num % den
  if 2 * r < den then q
  else if den < 2 * r then q + 1
  else if q % 2 = 0 then q else q + 1

/-- Numerator and denominator of `num / den` divided by `2 ^ exponent`. -/
def scaleFraction (num den : Nat) (exponent : Int) : Nat × Nat :=
  (num * Nat.pow 2 (-exponent).toNat, den * Nat.pow 2 exponent.toNat)

/-- The exponent at which the positive fraction `num / den` has a whole part of 53 bits, or the
least exponent of the format where that one is larger. -/
def fractionExponent (num den : Nat) : Int :=
  let e : Int := num.log2 - den.log2 - 52
  let (a, b) := scaleFraction num den e
  max (if a / b < Nat.pow 2 52 then e - 1 else e) (-1074)

/-- The value nearest to `num / den`, ties to the even mantissa. A fraction that rounds beyond the
largest finite value gives an infinity. -/
def ofFraction (negative : Bool) (num den : Nat) : Binary64 :=
  if num = 0 then .zero negative
  else
    let e := fractionExponent num den
    let (a, b) := scaleFraction num den e
    let q := roundQuotient a b
    -- Rounding up may carry into a bit more.
    let (m, e) := if q = Nat.pow 2 53 then (Nat.pow 2 52, e + 1) else (q, e)
    if h : IsNormal m e then .finite negative m e h else .infinite negative

/-- The value nearest to `digits * 10 ^ exponent`. Powers of ten far outside the range of the format
are decided without computing them. -/
def ofDecimal (negative : Bool) (digits : Nat) (exponent : Int) : Binary64 :=
  if digits = 0 then .zero negative
  else if exponent > 400 then .infinite negative
  else if (digits.log2 : Int) + 1 + exponent < -400 then .zero negative
  else ofFraction negative (digits * Nat.pow 10 exponent.toNat) (Nat.pow 10 (-exponent).toNat)

/-- The whole number that the value equals, if it equals one. -/
def toInt? : Binary64 → Option Int
  | .finite negative mantissa exponent _ =>
    let scale := Nat.pow 2 (-exponent).toNat
    if mantissa % scale = 0 then
      let n : Int := (mantissa / scale * Nat.pow 2 exponent.toNat : Nat)
      some (if negative then -n else n)
    else none
  | _ => none

/-- Numerical equality: the two zeros are equal, and the value that is not a number equals nothing,
not even itself. -/
def numEq (x y : Binary64) : Bool :=
  match x with
  | .nan => false
  | _ => x == y || (x.isZero && y.isZero)

end Binary64

end ChainScript
