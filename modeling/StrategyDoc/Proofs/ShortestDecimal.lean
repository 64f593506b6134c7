import StrategyDoc.Proofs.Rounding

/-! # The shortest decimal is near its double

The search for the shortest decimal ends at a grid with a point near the double, since the
finest grid always has one (`exists_nearestOnGrid?_zero`), and on the next coarser grid there
is none.  So the decimal is near the double (`isNear_shortest`), is not zero, and its digits
are a number of at most 57 bits (`shortest_digits_lt`).

A decimal whose digits and power of ten are doubles is read with one rounding only, so it is
read as the double that it is near to (`ofDecimal?_of_isNear`). -/

namespace StrategyDoc

namespace Binary64

/-! ### Points near a double -/

/-- A gap of the exponent of the double, in the quantities of the search. -/
def gapScale (x : Binary64) : Nat := pow2 x.exponent * pow10 gridCount

theorem gapScale_pos (x : Binary64) : 0 < x.gapScale := Nat.mul_pos (pow2_pos _) (pow10_pos _)

theorem center_eq (x : Binary64) : x.center = 4 * (x.mantissa * x.gapScale) := by
  unfold center units gapScale
  ring

theorem radiusAbove_eq (x : Binary64) : x.radiusAbove = 2 * x.gapScale := by
  unfold radiusAbove gapScale
  ring

theorem gapScale_le_radiusBelow (x : Binary64) : x.gapScale ≤ x.radiusBelow := by
  have hassoc : 2 * pow2 x.exponent * pow10 gridCount = 2 * x.gapScale := by
    unfold gapScale
    ring
  unfold radiusBelow
  split
  · exact Nat.le_refl _
  · omega

theorem roundsTo_eq_true_iff {x : Binary64} {p : Nat} :
    x.roundsTo p = true ↔ x.center ≤ p + x.radiusBelow ∧ p ≤ x.center + x.radiusAbove
      ∧ (x.mantissa % 2 = 1 → x.center < p + x.radiusBelow ∧ p < x.center + x.radiusAbove) := by
  unfold roundsTo
  split
  · simp only [decide_eq_true_eq]
    omega
  · simp only [decide_eq_true_eq]
    omega

theorem roundsTo_iff_near {x : Binary64} {p : Nat} :
    x.roundsTo p = true ↔ x.Near p (4 * pow10 gridCount) := by
  have hcenter : 4 * x.units * (4 * pow10 gridCount) = 4 * x.center := by
    unfold center
    ring
  have habove : x.gapAbove * (4 * pow10 gridCount) = 4 * x.radiusAbove := by
    unfold gapAbove radiusAbove
    ring
  have hbelow : x.gapBelow * (4 * pow10 gridCount) = 4 * x.radiusBelow := by
    unfold gapBelow radiusBelow
    split <;> ring
  rw [roundsTo_eq_true_iff]
  constructor
  · rintro ⟨hlower, hupper, hstrict⟩
    refine ⟨?_, ?_, fun hodd => ?_⟩ <;> rw [hcenter] <;> simp only [habove, hbelow]
    · omega
    · omega
    · have hs := hstrict hodd
      omega
  · rintro ⟨hlower, hupper, hstrict⟩
    rw [hcenter] at hlower hupper hstrict
    simp only [habove, hbelow] at hlower hupper hstrict
    refine ⟨by omega, by omega, fun hodd => ?_⟩
    have hs := hstrict hodd
    omega

/-! ### The grids -/

theorem gridStep_pos (i : Nat) : 0 < gridStep i := Nat.mul_pos (pow2_pos _) (pow10_pos _)

theorem gridStep_succ (i : Nat) : gridStep (i + 1) = 10 * gridStep i := by
  have hpow : pow10 (i + 1) = pow10 i * 10 := rfl
  unfold gridStep
  rw [hpow]
  ring

theorem roundsTo_of_nearestOnGrid? {x : Binary64} {i n : Nat}
    (h : x.nearestOnGrid? i = some n) : x.roundsTo (n * gridStep i) = true := by
  unfold nearestOnGrid? at h
  dsimp only at h
  split at h
  · cases h
  · next hlower _ =>
      cases h
      exact hlower
  · next hupper =>
      cases h
      exact hupper
  · next hlower hupper =>
      -- Both neighbours round to the double, and one of them is taken.
      have hone : n = x.center / gridStep i ∨ n = x.center / gridStep i + 1 := by
        split at h
        · exact .inl (Option.some.inj h).symm
        · split at h
          · exact .inr (Option.some.inj h).symm
          · have heq := Option.some.inj h
            omega
      rcases hone with rfl | rfl
      · exact hlower
      · exact hupper

theorem roundsTo_neighbours_of_nearestOnGrid? {x : Binary64} {i : Nat}
    (h : x.nearestOnGrid? i = none) :
    x.roundsTo (x.center / gridStep i * gridStep i) = false
      ∧ x.roundsTo ((x.center / gridStep i + 1) * gridStep i) = false := by
  unfold nearestOnGrid? at h
  dsimp only at h
  split at h
  · next hlower hupper => exact ⟨hlower, hupper⟩
  · cases h
  · cases h
  · split at h
    · cases h
    · split at h <;> cases h

theorem exists_nearestOnGrid?_zero (x : Binary64) : ∃ n, x.nearestOnGrid? 0 = some n := by
  have hstep : gridStep 0 < pow10 gridCount := by decide +kernel
  have hscale : 1 * pow10 gridCount ≤ x.gapScale := Nat.mul_le_mul_right _ (pow2_pos _)
  have hbelow := x.gapScale_le_radiusBelow
  have habove := x.radiusAbove_eq
  have hcenter : x.center = x.center / gridStep 0 * gridStep 0 + x.center % gridStep 0 :=
    (Nat.div_add_mod' _ _).symm
  have hmod : x.center % gridStep 0 < gridStep 0 := Nat.mod_lt _ (gridStep_pos 0)
  have hlower : x.roundsTo (x.center / gridStep 0 * gridStep 0) = true := by
    apply roundsTo_eq_true_iff.mpr
    omega
  apply Option.ne_none_iff_exists'.mp
  intro hnone
  obtain ⟨hfalse, -⟩ := roundsTo_neighbours_of_nearestOnGrid? hnone
  rw [hlower] at hfalse
  cases hfalse

/-- A grid without a point near the double is coarser than the gap between the neighbours. -/
theorem gapScale_le_gridStep {x : Binary64} {i : Nat} (h : x.nearestOnGrid? i = none) :
    3 * x.gapScale ≤ gridStep i := by
  obtain ⟨hlower, hupper⟩ := roundsTo_neighbours_of_nearestOnGrid? h
  have hbelow := x.gapScale_le_radiusBelow
  have habove := x.radiusAbove_eq
  have hcenter : x.center = x.center / gridStep i * gridStep i + x.center % gridStep i :=
    (Nat.div_add_mod' _ _).symm
  have hmod : x.center % gridStep i < gridStep i := Nat.mod_lt _ (gridStep_pos i)
  rw [Nat.succ_mul] at hupper
  rw [← Bool.not_eq_true, roundsTo_eq_true_iff] at hlower hupper
  omega

/-! ### The search -/

/-- The search ends at a grid with a point near the double, and if it is not the first grid
then there is none on the next coarser one. -/
theorem exists_shortestFrom_eq (x : Binary64) (i : Nat) : ∃ j n, j ≤ i
    ∧ x.shortestFrom i = ⟨n, (j : Int) - gridCount⟩ ∧ x.nearestOnGrid? j = some n
    ∧ (j = i ∨ x.nearestOnGrid? (j + 1) = none) := by
  induction i with
  | zero =>
      obtain ⟨n, hn⟩ := exists_nearestOnGrid?_zero x
      refine ⟨0, n, Nat.le_refl 0, ?_, hn, .inl rfl⟩
      rw [shortestFrom, hn]
      rfl
  | succ i ih =>
      rw [shortestFrom]
      cases hfound : x.nearestOnGrid? (i + 1) with
      | some n => exact ⟨i + 1, n, Nat.le_refl _, rfl, hfound, .inl rfl⟩
      | none =>
          obtain ⟨j, n, hj, heq, hn, hnext⟩ := ih
          refine ⟨j, n, Nat.le_succ_of_le hj, heq, hn, .inr ?_⟩
          rcases hnext with rfl | hnext
          · exact hfound
          · exact hnext

theorem log2_le_of_le_pow2 {n k : Nat} (hn : n ≠ 0) (h : n ≤ pow2 k) : n.log2 ≤ k := by
  have hself : pow2 n.log2 ≤ pow2 k := Nat.le_trans (Nat.log2_self_le hn) h
  exact (Nat.pow_le_pow_iff_right (by decide)).mp hself

/-- The search starts at a moderate grid, since there is a largest double. -/
theorem firstGrid_le (x : Binary64) : x.firstGrid ≤ 700 := by
  have hten : pow10 gridCount ≤ pow2 1077 := by decide +kernel
  have hmantissa : 4 * x.mantissa + 2 ≤ pow2 55 := by
    have hlt := x.mantissa_lt
    have h53 : pow2 53 = 9007199254740992 := rfl
    have h55 : pow2 55 = 36028797018963968 := rfl
    omega
  have hsum : x.center + x.radiusAbove = (4 * x.mantissa + 2) * x.gapScale := by
    rw [center_eq, radiusAbove_eq]
    ring
  have hle : x.center + x.radiusAbove ≤ pow2 (55 + (2045 + 1077)) := by
    rw [hsum, pow2_add, pow2_add 2045]
    exact Nat.mul_le_mul hmantissa (Nat.mul_le_mul (pow2_le_pow2 x.exponent_le) hten)
  have hscale := x.gapScale_pos
  have hpos : x.center + x.radiusAbove ≠ 0 := by
    rw [radiusAbove_eq]
    omega
  have hlog := log2_le_of_le_pow2 hpos hle
  unfold firstGrid quarterBits
  omega

section shortest

variable {x : Binary64} (hx : x.isZero = false)

include hx

theorem exists_shortest_eq : ∃ j n, j ≤ x.firstGrid
    ∧ x.shortest = ⟨n, (j : Int) - gridCount⟩ ∧ x.roundsTo (n * gridStep j) = true
    ∧ 3 * x.gapScale ≤ gridStep (j + 1) := by
  obtain ⟨j, n, hj, heq, hn, hnext⟩ := exists_shortestFrom_eq x x.firstGrid
  refine ⟨j, n, hj, heq, roundsTo_of_nearestOnGrid? hn, gapScale_le_gridStep ?_⟩
  rcases hnext with rfl | hnext
  · exact nearestOnGrid?_of_firstGrid_lt hx (Nat.lt_succ_self _)
  · exact hnext

theorem shortest_digits_pos : 0 < x.shortest.digits := by
  obtain ⟨j, n, -, heq, hn, -⟩ := exists_shortest_eq hx
  rw [heq]
  apply Nat.pos_of_ne_zero
  rintro rfl
  have hbelow := radiusBelow_lt_center hx
  rw [Nat.zero_mul, roundsTo_eq_true_iff] at hn
  omega

/-- The digits of a shortest decimal are a number of at most 57 bits. -/
theorem shortest_digits_lt : x.shortest.digits < pow2 57 := by
  obtain ⟨j, n, -, heq, hn, hgap⟩ := exists_shortest_eq hx
  rw [heq]
  obtain ⟨-, hupper, -⟩ := roundsTo_eq_true_iff.mp hn
  rw [center_eq, radiusAbove_eq] at hupper
  rw [gridStep_succ] at hgap
  have hmantissa := x.mantissa_lt
  have hscale := x.gapScale_pos
  have hmul := Nat.mul_le_mul_left n hgap
  have hbound : n * 3 * x.gapScale ≤ (40 * x.mantissa + 20) * x.gapScale := by
    have hleft : n * (3 * x.gapScale) = n * 3 * x.gapScale := by ring
    have hright : n * (10 * gridStep j) = 10 * (n * gridStep j) := by ring
    have hsum : (40 * x.mantissa + 20) * x.gapScale
        = 10 * (4 * (x.mantissa * x.gapScale) + 2 * x.gapScale) := by ring
    omega
  have hle : n * 3 ≤ 40 * x.mantissa + 20 := Nat.le_of_mul_le_mul_right hbound hscale
  have h53 : pow2 53 = 9007199254740992 := rfl
  have h57 : pow2 57 = 144115188075855872 := rfl
  show n < pow2 57
  omega

theorem natAbs_shortest_exponent_le : x.shortest.exponent.natAbs ≤ 700 := by
  obtain ⟨j, n, hj, heq, -, -⟩ := exists_shortest_eq hx
  have hfirst := firstGrid_le x
  rw [heq]
  show ((j : Int) - (324 : Nat)).natAbs ≤ 700
  omega

end shortest

/-! ### Decimals near a double -/

/-- The decimal, as a fraction of units, is near to the double. -/
def IsNear (x : Binary64) (d : Decimal) : Prop :=
  match d.exponent with
  | .ofNat k => x.Near (d.digits * pow10 k * unitsPerOne) 1
  | .negSucc k => x.Near (d.digits * unitsPerOne) (pow10 (k + 1))

theorem quartersPerOne_eq : quartersPerOne = 4 * unitsPerOne := by
  have hbits : quarterBits = 2 + 1074 := rfl
  have hfour : pow2 2 = 4 := rfl
  unfold quartersPerOne unitsPerOne
  rw [hbits, pow2_add, hfour]

theorem isNear_grid {x : Binary64} {n j : Nat} (h : x.roundsTo (n * gridStep j) = true) :
    x.IsNear ⟨n, (j : Int) - gridCount⟩ := by
  rw [roundsTo_iff_near, gridStep, quartersPerOne_eq] at h
  unfold IsNear
  by_cases hj : gridCount ≤ j
  · obtain ⟨k, rfl⟩ := Nat.exists_eq_add_of_le hj
    have hexponent : ((gridCount + k : Nat) : Int) - gridCount = .ofNat k := by
      rw [Int.ofNat_eq_natCast]
      omega
    have hpoint : n * (4 * unitsPerOne * pow10 (gridCount + k))
        = n * pow10 k * unitsPerOne * (4 * pow10 gridCount) := by
      rw [pow10_add]
      ring
    rw [hpoint] at h
    have hone : x.Near (n * pow10 k * unitsPerOne * (4 * pow10 gridCount))
        (1 * (4 * pow10 gridCount)) := by
      rwa [Nat.one_mul]
    rw [hexponent]
    exact (near_mul_right (Nat.mul_pos (by decide) (pow10_pos gridCount))).mp hone
  · obtain ⟨k, hk⟩ := Nat.exists_eq_add_of_lt (Nat.lt_of_not_le hj)
    have hexponent : (j : Int) - gridCount = .negSucc k := by
      rw [Int.negSucc_eq]
      omega
    have hpoint : n * (4 * unitsPerOne * pow10 j) = n * unitsPerOne * (4 * pow10 j) := by ring
    have hscale : 4 * pow10 gridCount = pow10 (k + 1) * (4 * pow10 j) := by
      rw [hk, Nat.add_assoc, pow10_add]
      ring
    rw [hpoint, hscale] at h
    rw [hexponent]
    exact (near_mul_right (Nat.mul_pos (by decide) (pow10_pos j))).mp h

/-- **The shortest decimal of a double is near to it.** -/
theorem isNear_shortest {x : Binary64} (hx : x.isZero = false) : x.IsNear x.shortest := by
  obtain ⟨j, n, -, heq, hn, -⟩ := exists_shortest_eq hx
  rw [heq]
  exact isNear_grid hn

/-! ### Reading with one rounding -/

theorem with_negative_eq (x : Binary64) (h : x.negative = false) :
    { x with negative := false } = x := by
  cases x
  cases h
  rfl

theorem ofNat?_of_bits {m k : Nat} (hm : 0 < m) (hbits : m < pow2 53) (hk : k ≤ 971) :
    ∃ x, ofNat? (m * pow2 k) = some x ∧ x.negative = false
      ∧ x.units = m * pow2 k * unitsPerOne := by
  obtain ⟨x, hnegative, hunits⟩ := exists_units_eq (k := k + 1074) hm hbits (by omega) (by omega)
  have hone : x.units = m * pow2 k * unitsPerOne := by
    rw [hunits, pow2_add, Nat.mul_assoc]
    rfl
  refine ⟨x, ?_, hnegative, hone⟩
  have hround := ofQuotient?_units x Nat.one_pos false
  rw [Nat.mul_one, hone] at hround
  unfold ofNat?
  rw [hround, with_negative_eq x hnegative]

theorem ofNat?_of_le {n : Nat} (hn : 0 < n) (hmax : n ≤ pow2 53) :
    ∃ x, ofNat? n = some x ∧ x.negative = false ∧ x.units = n * unitsPerOne := by
  rcases Nat.lt_or_eq_of_le hmax with hlt | rfl
  · have h := ofNat?_of_bits (k := 0) hn hlt (by decide)
    have hone : n * pow2 0 = n := Nat.mul_one n
    rwa [hone] at h
  · have h := ofNat?_of_bits (k := 53) Nat.one_pos (by decide) (by decide)
    rwa [Nat.one_mul] at h

theorem powerOfTen_eq {k : Nat} (hk : k ≤ 22) :
    (powerOfTen k).negative = false ∧ (powerOfTen k).units = pow10 k * unitsPerOne := by
  have hfive : 5 ^ k < pow2 53 :=
    Nat.lt_of_le_of_lt (Nat.pow_le_pow_right (by decide) hk) (by decide)
  have hten : 5 ^ k * pow2 k = pow10 k := (Nat.mul_pow 5 2 k).symm
  obtain ⟨x, hx, hnegative, hunits⟩ :=
    ofNat?_of_bits (k := k) (Nat.pow_pos (by decide)) hfive (by omega)
  rw [hten] at hx hunits
  unfold powerOfTen
  rw [hx]
  exact ⟨hnegative, hunits⟩

/-- Digits and a power of ten that are doubles are multiplied or divided with one rounding. -/
theorem ofDecimal?_of_isNear {x : Binary64} {d : Decimal} (h : x.IsNear d) (hpos : 0 < d.digits)
    (hdigits : d.digits ≤ pow2 53) (hexponent : d.exponent.natAbs ≤ 22) :
    ofDecimal? d.digits d.exponent = some { x with negative := false } := by
  obtain ⟨f, hf, hnegative, hunits⟩ := ofNat?_of_le hpos hdigits
  have hunit : 0 < unitsPerOne := pow2_pos _
  unfold IsNear at h
  unfold ofDecimal?
  rw [hf, Option.bind_some]
  cases hexp : d.exponent with
  | ofNat k =>
      rw [hexp] at h hexponent
      have hk : k ≤ 22 := hexponent
      obtain ⟨htenNegative, htenUnits⟩ := powerOfTen_eq hk
      have hle : k ≤ maxPower := Nat.le_trans hk (by decide)
      have hproduct : f.units * (powerOfTen k).units
          = d.digits * pow10 k * unitsPerOne * unitsPerOne := by
        rw [hunits, htenUnits]
        ring
      have hnear : x.Near (d.digits * pow10 k * unitsPerOne * unitsPerOne) unitsPerOne := by
        have hscaled := (near_mul_right hunit).mpr h
        rwa [Nat.one_mul] at hscaled
      rw [scale?, if_pos hle, mul?, hproduct, hnegative, htenNegative]
      exact ofQuotient?_of_near hunit hnear _
  | negSucc k =>
      rw [hexp] at h hexponent
      have hk : k + 1 ≤ 22 := hexponent
      obtain ⟨htenNegative, htenUnits⟩ := powerOfTen_eq hk
      have hblocks : k / maxPower = 0 := Nat.div_eq_of_lt (by unfold maxPower; omega)
      have hrest : k % maxPower = k := Nat.mod_eq_of_lt (by unfold maxPower; omega)
      have hproduct : f.units * unitsPerOne = d.digits * unitsPerOne * unitsPerOne := by
        rw [hunits]
      rw [scale?, hblocks, hrest, divPowers?, div?, hproduct, htenUnits, hnegative, htenNegative]
      exact ofQuotient?_of_near (Nat.mul_pos (pow10_pos _) hunit)
        ((near_mul_right hunit).mpr h) _

end Binary64

end StrategyDoc
