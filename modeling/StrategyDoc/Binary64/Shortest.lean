import StrategyDoc.Binary64.Basic

/-! # The shortest decimal of a double

The reals that round to a double form an interval around it, which includes its ends
exactly when the mantissa is even.  `shortest` takes the coarsest grid of multiples of a
power of ten that has a point in this interval, and of its points the one nearest to the
double, the even one if two are equally near.  No decimal with fewer digits lies in the
interval: such a decimal would be below a power of ten that lies in it too, and this power
is on a coarser grid.

All quantities are counted in quarters of a unit times `10 ^ gridCount`, so that the ends
of the interval and all grids are whole numbers. -/

namespace StrategyDoc

/-- The decimal `digits * 10 ^ exponent`. -/
structure Decimal where
  digits : Nat
  exponent : Int
deriving DecidableEq, Repr

namespace Binary64

/-- The finest grid is that of `10 ^ -gridCount`. -/
def gridCount : Nat := 324

/-- One is this power of two, counted in quarters of a unit. -/
def quarterBits : Nat := 1076

/-- The quarters of a unit in one. -/
def quartersPerOne : Nat := pow2 quarterBits

/-- Distance of two neighbours on grid number `i`, that of `10 ^ (i - gridCount)`. -/
def gridStep (i : Nat) : Nat := quartersPerOne * pow10 i

/-- The magnitude of the double itself. -/
def center (x : Binary64) : Nat := 4 * x.units * pow10 gridCount

/-- Half the gap to the next larger double. -/
def radiusAbove (x : Binary64) : Nat := 2 * pow2 x.exponent * pow10 gridCount

/-- Half the gap to the next smaller double, which is narrower below a power of two. -/
def radiusBelow (x : Binary64) : Nat :=
  if x.mantissa = pow2 52 ∧ x.exponent ≠ 0 then pow2 x.exponent * pow10 gridCount
  else 2 * pow2 x.exponent * pow10 gridCount

/-- The magnitude `p` rounds to that of the double. -/
def roundsTo (x : Binary64) (p : Nat) : Bool :=
  if x.mantissa % 2 = 0 then
    decide (x.center ≤ p + x.radiusBelow ∧ p ≤ x.center + x.radiusAbove)
  else
    decide (x.center < p + x.radiusBelow ∧ p < x.center + x.radiusAbove)

/-- The multiple of grid number `i` that rounds to the double and is nearest to it. -/
def nearestOnGrid? (x : Binary64) (i : Nat) : Option Nat :=
  let step := gridStep i
  let lower := x.center / step
  let above := x.center % step
  match x.roundsTo (lower * step), x.roundsTo ((lower + 1) * step) with
  | false, false => none
  | true, false => some lower
  | false, true => some (lower + 1)
  | true, true =>
    if 2 * above < step then some lower
    else if step < 2 * above then some (lower + 1)
    else some (lower + lower % 2)

/-- Search the grids from number `i` downwards. -/
def shortestFrom (x : Binary64) : (i : Nat) → Decimal
  | 0 => ⟨(x.nearestOnGrid? 0).getD 0, -gridCount⟩
  | i + 1 =>
    match x.nearestOnGrid? (i + 1) with
    | some n => ⟨n, (i + 1 : Nat) - gridCount⟩
    | none => x.shortestFrom i

/-- A grid that is coarse enough to begin with: one power of ten takes more than 93/28
powers of two, so no grid beyond this one has a point as small as the end of the interval
(`nearestOnGrid?_of_firstGrid_lt`). -/
def firstGrid (x : Binary64) : Nat :=
  ((x.center + x.radiusAbove).log2 - quarterBits) * 28 / 93 + 1

/-- The shortest decimal that rounds to the magnitude of a double other than zero. -/
def shortest (x : Binary64) : Decimal := x.shortestFrom x.firstGrid

/-! ### The first grid -/

theorem pow2_le_mul_of_le {n k p : Nat} (h : pow2 (n - k) ≤ p) : pow2 n ≤ pow2 k * p := by
  refine Nat.le_trans ?_ (Nat.mul_le_mul_left (pow2 k) h)
  rw [← pow2_add]
  exact pow2_le_pow2 (by omega)

theorem lt_gridStep_of_firstGrid_lt {x : Binary64} {i : Nat} (h : x.firstGrid < i) :
    x.center + x.radiusAbove < gridStep i := by
  unfold firstGrid at h
  have hlog : pow2 ((x.center + x.radiusAbove).log2 + 1 - quarterBits) ≤ pow10 i :=
    pow2_le_pow10 (by omega)
  exact Nat.lt_of_lt_of_le (lt_pow2_log2_succ _) (pow2_le_mul_of_le hlog)

theorem radiusBelow_lt_center {x : Binary64} (h : x.isZero = false) :
    x.radiusBelow < x.center := by
  have hm : 1 ≤ x.mantissa := by
    unfold isZero at h
    simp at h
    omega
  have hk : 0 < pow2 x.exponent * pow10 gridCount := Nat.mul_pos (pow2_pos _) (pow10_pos _)
  have hc : x.center = 4 * x.mantissa * (pow2 x.exponent * pow10 gridCount) := by
    unfold center units
    simp [Nat.mul_assoc]
  have hr : x.radiusBelow ≤ 2 * (pow2 x.exponent * pow10 gridCount) := by
    unfold radiusBelow
    split
    · omega
    · exact Nat.le_of_eq (Nat.mul_assoc _ _ _)
  have h4 : 4 * (pow2 x.exponent * pow10 gridCount) ≤ x.center := by
    rw [hc]
    exact Nat.mul_le_mul_right _ (by omega)
  omega

theorem nearestOnGrid?_of_firstGrid_lt {x : Binary64} {i : Nat} (hx : x.isZero = false)
    (h : x.firstGrid < i) : x.nearestOnGrid? i = none := by
  have hstep := lt_gridStep_of_firstGrid_lt h
  have hbelow := radiusBelow_lt_center hx
  have hlower : x.center / gridStep i = 0 := Nat.div_eq_of_lt (by omega)
  have h0 : x.roundsTo 0 = false := by
    unfold roundsTo
    split <;> simp <;> omega
  have h1 : x.roundsTo (gridStep i) = false := by
    unfold roundsTo
    split <;> simp <;> omega
  unfold nearestOnGrid?
  simp [hlower, h0, h1]

end Binary64

end StrategyDoc
