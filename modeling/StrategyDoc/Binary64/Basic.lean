import StrategyDoc.Binary64.Power

/-! # Double-precision numbers in exact arithmetic

A finite double is a sign and a magnitude of `mantissa * 2 ^ exponent` units, one unit
being `2 ^ -1074`, the smallest positive double.  Every operation forms its exact result
as a quotient of natural numbers and rounds it once, to the nearest double and at a
midpoint to the even mantissa (`ofQuotient?`).  A result whose rounded magnitude needs an
exponent above `2045` is beyond the largest double, and the operation has no value. -/

namespace StrategyDoc

/-- The nearest natural number to `n / d`, the even one at a midpoint. -/
def roundQuotient (n d : Nat) : Nat :=
  let q := n / d
  let r := n % d
  if 2 * r < d then q
  else if d < 2 * r then q + 1
  else q + q % 2

/-- A finite double-precision number.  The mantissa has at most 53 bits, and exactly 53
unless the exponent is zero. -/
structure Binary64 where
  negative : Bool
  mantissa : Nat
  exponent : Nat
  mantissa_lt : mantissa < pow2 53
  normal : exponent = 0 ∨ pow2 52 ≤ mantissa
  exponent_le : exponent ≤ 2045
deriving DecidableEq

namespace Binary64

/-- The zero of either sign. -/
def zero (negative : Bool) : Binary64 :=
  ⟨negative, 0, 0, by decide, .inl rfl, by decide⟩

instance : Inhabited Binary64 := ⟨zero false⟩

/-- The magnitude, counted in units of `2 ^ -1074`. -/
def units (x : Binary64) : Nat := x.mantissa * pow2 x.exponent

def isZero (x : Binary64) : Bool := x.mantissa == 0

/-- The same magnitude with the other sign. -/
def neg (x : Binary64) : Binary64 := { x with negative := !x.negative }

instance : Neg Binary64 := ⟨neg⟩

/-- The units in one. -/
def unitsPerOne : Nat := pow2 1074

/-! ### Rounding -/

/-- The double of `mantissa * 2 ^ exponent` units, if there is one with these parts. -/
def ofParts? (negative : Bool) (mantissa exponent : Nat) : Option Binary64 :=
  if h : mantissa < pow2 53 ∧ (exponent = 0 ∨ pow2 52 ≤ mantissa) ∧ exponent ≤ 2045 then
    some ⟨negative, mantissa, exponent, h.1, h.2.1, h.2.2⟩
  else
    none

/-- The exponent at which a magnitude of `n` whole units keeps 53 bits. -/
def exponentFor (n : Nat) : Nat := n.log2 - 52

/-- The double nearest to `n / d` units; none beyond the largest double. -/
def ofQuotient? (negative : Bool) (n d : Nat) : Option Binary64 :=
  let exponent := exponentFor (n / d)
  let mantissa := roundQuotient n (d * pow2 exponent)
  if mantissa = pow2 53 then ofParts? negative (pow2 52) (exponent + 1)
  else ofParts? negative mantissa exponent

/-- The double nearest to a natural number. -/
def ofNat? (n : Nat) : Option Binary64 := ofQuotient? false (n * unitsPerOne) 1

/-! ### Arithmetic -/

/-- The rounded product. -/
def mul? (x y : Binary64) : Option Binary64 :=
  ofQuotient? (x.negative != y.negative) (x.units * y.units) unitsPerOne

/-- The rounded quotient of `x` by a number other than zero. -/
def div? (x y : Binary64) : Option Binary64 :=
  ofQuotient? (x.negative != y.negative) (x.units * unitsPerOne) y.units

end Binary64

end StrategyDoc
