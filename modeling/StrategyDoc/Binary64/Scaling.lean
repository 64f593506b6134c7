import StrategyDoc.Binary64.Basic

/-! # Reading a decimal by scaling

`ofDecimal?` turns `significand * 10 ^ exponent` into a double in a fixed number of
rounded steps: the significand is rounded first, then multiplied or divided by the double
nearest to the power of ten.  The powers end at `10 ^ 308`; a smaller exponent is worked
off in blocks of `308`, a larger one is beyond the range.  Since every step rounds, the
result can differ from the double nearest to the decimal by a unit in the last place. -/

namespace StrategyDoc.Binary64

/-- The largest power of ten used in one step. -/
def maxPower : Nat := 308

/-- The double nearest to `10 ^ n`, for `n` up to `maxPower`. -/
def powerOfTen (n : Nat) : Binary64 := (ofNat? (pow10 n)).getD (zero false)

/-- Divide by `10 ^ maxPower` the given number of times and then by `10 ^ rest`, stopping
as soon as the number is zero. -/
def divPowers? : (blocks rest : Nat) → Binary64 → Option Binary64
  | 0, rest, f => f.div? (powerOfTen rest)
  | blocks + 1, rest, f =>
    if f.isZero then some f
    else (f.div? (powerOfTen maxPower)).bind (divPowers? blocks rest)

/-- Scale `f` by `10 ^ exponent`; none beyond the largest double. -/
def scale? (f : Binary64) : (exponent : Int) → Option Binary64
  | .ofNat n =>
    if n ≤ maxPower then f.mul? (powerOfTen n)
    else if f.isZero then some f
    else none
  | .negSucc n => divPowers? (n / maxPower) (n % maxPower + 1) f

/-- Read `significand * 10 ^ exponent`; none beyond the largest double. -/
def ofDecimal? (significand : Nat) (exponent : Int) : Option Binary64 :=
  (ofNat? significand).bind (·.scale? exponent)

end StrategyDoc.Binary64
