import StrategyDoc.Binary64.Scaling
import StrategyDoc.Binary64.Shortest
import Mathlib.Tactic.Ring

/-! # Rounding to the nearest double

A fraction of units is rounded to a double exactly as its place among the neighbours of the
double says: if it lies within half a gap on both sides, the ends included if the mantissa is
even, then the double is what `ofQuotient?` yields (`ofQuotient?_of_near`).  In particular the
units of a double are rounded to the double itself (`ofQuotient?_units`), and what has at
most 53 bits is a double without any rounding (`exists_units_eq`). -/

namespace StrategyDoc

/-! ### Rounding to a natural number -/

/-- A number is the nearest one to a fraction if it is not more than one half away, and less
than that if it is odd. -/
theorem roundQuotient_eq {n d m : Nat} (hd : 0 < d) (hlower : 2 * (m * d) ≤ 2 * n + d)
    (hupper : 2 * n ≤ 2 * (m * d) + d)
    (hodd : m % 2 = 1 → 2 * (m * d) < 2 * n + d ∧ 2 * n < 2 * (m * d) + d) :
    roundQuotient n d = m := by
  have hn : n = n / d * d + n % d := (Nat.div_add_mod' n d).symm
  have hr : n % d < d := Nat.mod_lt n hd
  unfold roundQuotient
  generalize n / d = q at hn ⊢
  generalize n % d = r at hn hr ⊢
  subst hn
  -- The quotient is the number itself or the one below it.
  have hle : q ≤ m := by
    apply Nat.le_of_not_lt
    intro h
    have hmul := Nat.mul_le_mul_right d (Nat.succ_le_of_lt h)
    rw [Nat.succ_mul] at hmul
    omega
  have hge : m ≤ q + 1 := by
    apply Nat.le_of_not_lt
    intro h
    have hmul := Nat.mul_le_mul_right d (Nat.succ_le_of_lt h)
    rw [Nat.succ_mul, Nat.succ_mul] at hmul
    omega
  rcases Nat.lt_or_eq_of_le hle with hlt | rfl
  · obtain rfl : m = q + 1 := by omega
    have hsucc : (q + 1) * d = q * d + d := Nat.succ_mul q d
    simp only [hsucc] at hlower hupper hodd
    dsimp only
    split
    · omega
    · split
      · rfl
      · omega
  · dsimp only
    split
    · rfl
    · split <;> omega

namespace Binary64

/-! ### Neighbours -/

/-- Half the gap to the next larger double, in quarters of a unit. -/
def gapAbove (x : Binary64) : Nat := 2 * pow2 x.exponent

/-- Half the gap to the next smaller double, in quarters of a unit. -/
def gapBelow (x : Binary64) : Nat :=
  if x.mantissa = pow2 52 ∧ x.exponent ≠ 0 then pow2 x.exponent else 2 * pow2 x.exponent

/-- The fraction `n / d` of units lies within half a gap of the magnitude of the double, and
strictly so if the mantissa is odd. -/
structure Near (x : Binary64) (n d : Nat) : Prop where
  lower : 4 * x.units * d ≤ 4 * n + x.gapBelow * d
  upper : 4 * n ≤ 4 * x.units * d + x.gapAbove * d
  strict : x.mantissa % 2 = 1 →
    4 * x.units * d < 4 * n + x.gapBelow * d ∧ 4 * n < 4 * x.units * d + x.gapAbove * d

theorem near_units (x : Binary64) {d : Nat} (hd : 0 < d) : x.Near (x.units * d) d := by
  have hpow : 0 < pow2 x.exponent := pow2_pos _
  have hbelow : 0 < x.gapBelow * d := by
    apply Nat.mul_pos _ hd
    unfold gapBelow
    split <;> omega
  have habove : 0 < x.gapAbove * d := by
    apply Nat.mul_pos _ hd
    unfold gapAbove
    omega
  have hunits : 4 * x.units * d = 4 * (x.units * d) := Nat.mul_assoc _ _ _
  refine ⟨?_, ?_, fun _ => ⟨?_, ?_⟩⟩ <;> omega

theorem near_mul_right {x : Binary64} {n d k : Nat} (hk : 0 < k) :
    x.Near (n * k) (d * k) ↔ x.Near n d := by
  have hcancel : ∀ a b : Nat, a * k ≤ b * k ↔ a ≤ b := fun _ _ => Nat.mul_le_mul_right_iff hk
  have hcancel' : ∀ a b : Nat, a * k < b * k ↔ a < b := fun _ _ => Nat.mul_lt_mul_right hk
  have hlower : 4 * (n * k) + x.gapBelow * (d * k) = (4 * n + x.gapBelow * d) * k := by ring
  have hunits : 4 * x.units * (d * k) = 4 * x.units * d * k := by ring
  have hupper : 4 * x.units * (d * k) + x.gapAbove * (d * k)
      = (4 * x.units * d + x.gapAbove * d) * k := by ring
  have hn : 4 * (n * k) = 4 * n * k := by ring
  constructor
  · rintro ⟨h1, h2, h3⟩
    rw [hlower, hunits] at h1
    rw [hupper, hn] at h2
    rw [hlower, hupper, hunits, hn] at h3
    simp only [hcancel, hcancel'] at h1 h2 h3
    exact ⟨h1, h2, h3⟩
  · rintro ⟨h1, h2, h3⟩
    refine ⟨?_, ?_, ?_⟩
    · rw [hlower, hunits, hcancel]
      exact h1
    · rw [hupper, hn, hcancel]
      exact h2
    · rw [hlower, hupper, hunits, hn, hcancel', hcancel']
      exact h3

/-! ### Rounding to a double -/

theorem exponentFor_eq_zero {q : Nat} (h : q < pow2 53) : exponentFor q = 0 := by
  unfold exponentFor
  by_cases hq : q = 0
  · subst hq
    rfl
  · have hlog : q.log2 < 53 := (Nat.log2_lt hq).mpr h
    omega

theorem exponentFor_eq {q e : Nat} (hlower : pow2 (52 + e) ≤ q) (hupper : q < pow2 (53 + e)) :
    exponentFor q = e := by
  have hq : q ≠ 0 := Nat.ne_of_gt (Nat.lt_of_lt_of_le (pow2_pos _) hlower)
  have hsum : 52 + e + 1 = 53 + e := by omega
  have hlog : q.log2 = 52 + e := by
    apply (Nat.log2_eq_iff hq).mpr
    rw [hsum]
    exact ⟨hlower, hupper⟩
  unfold exponentFor
  omega

theorem ofParts?_parts (x : Binary64) (negative : Bool) :
    ofParts? negative x.mantissa x.exponent = some { x with negative := negative } := by
  unfold ofParts?
  rw [dif_pos ⟨x.mantissa_lt, x.normal, x.exponent_le⟩]

section near

variable {x : Binary64} {n d : Nat} (hd : 0 < d) (h : x.Near n d)

include hd h

theorem Near.roundQuotient_eq : roundQuotient n (d * pow2 x.exponent) = x.mantissa := by
  obtain ⟨hlower, hupper, hstrict⟩ := h
  have hunits : 4 * x.units * d = 4 * (x.mantissa * (d * pow2 x.exponent)) := by
    unfold units
    ring
  have habove : x.gapAbove * d = 2 * (d * pow2 x.exponent) := by
    unfold gapAbove
    ring
  have hbelow : x.gapBelow * d ≤ 2 * (d * pow2 x.exponent) := by
    have hle : x.gapBelow ≤ 2 * pow2 x.exponent := by
      unfold gapBelow
      split <;> omega
    have hmul := Nat.mul_le_mul_right d hle
    have hassoc : 2 * pow2 x.exponent * d = 2 * (d * pow2 x.exponent) := by ring
    omega
  rw [hunits] at hlower hupper hstrict
  rw [habove] at hupper hstrict
  apply StrategyDoc.roundQuotient_eq (Nat.mul_pos hd (pow2_pos _))
  · omega
  · omega
  · intro hodd
    have hs := hstrict hodd
    omega

theorem Near.div_lt : n / d < pow2 (53 + x.exponent) := by
  have hm : x.mantissa + 1 ≤ pow2 53 := x.mantissa_lt
  have hpow : pow2 (53 + x.exponent) = pow2 53 * pow2 x.exponent := pow2_add _ _
  have hupper : 4 * n ≤ (4 * x.mantissa + 2) * (pow2 x.exponent * d) := by
    have heq : 4 * x.units * d + x.gapAbove * d
        = (4 * x.mantissa + 2) * (pow2 x.exponent * d) := by
      unfold units gapAbove
      ring
    rw [← heq]
    exact h.upper
  have hunit : 0 < pow2 x.exponent * d := Nat.mul_pos (pow2_pos _) hd
  have hbound := Nat.mul_le_mul_right (pow2 x.exponent * d)
    (Nat.mul_le_mul_left 4 hm)
  apply (Nat.div_lt_iff_lt_mul hd).mpr
  rw [hpow]
  have hassoc : 4 * pow2 53 * (pow2 x.exponent * d) = 4 * (pow2 53 * pow2 x.exponent * d) := by
    ring
  have hexpand : 4 * (x.mantissa + 1) * (pow2 x.exponent * d)
      = (4 * x.mantissa + 2) * (pow2 x.exponent * d) + 2 * (pow2 x.exponent * d) := by
    ring
  omega

/-- A quotient with fewer bits than the double belongs to a power of two, to which it is
rounded up from the exponent below. -/
theorem Near.of_div_lt {e : Nat} (he : x.exponent = e + 1) (hlt : n / d < pow2 (53 + e)) :
    x.mantissa = pow2 52 ∧ pow2 (52 + e) ≤ n / d
      ∧ roundQuotient n (d * pow2 e) = pow2 53 := by
  have hnormal : pow2 52 ≤ x.mantissa := x.normal.resolve_left (by omega)
  have hn : n < pow2 53 * (d * pow2 e) := by
    have hlt' := (Nat.div_lt_iff_lt_mul hd).mp hlt
    rw [pow2_add] at hlt'
    have hassoc : pow2 53 * pow2 e * d = pow2 53 * (d * pow2 e) := by ring
    omega
  have hpow : pow2 x.exponent = 2 * pow2 e := by
    rw [he, pow2_add]
    exact Nat.mul_comm _ _
  have hunits : 4 * x.units * d = 8 * (x.mantissa * (d * pow2 e)) := by
    unfold units
    rw [hpow]
    ring
  have hlower := h.lower
  rw [hunits] at hlower
  have hunit : 0 < d * pow2 e := Nat.mul_pos hd (pow2_pos _)
  have h53 : pow2 53 = 2 * pow2 52 := rfl
  have hmantissa : x.mantissa = pow2 52 := by
    apply Nat.le_antisymm _ hnormal
    apply Nat.le_of_not_lt
    intro hgt
    have hmul := Nat.mul_le_mul_right (d * pow2 e) (Nat.succ_le_of_lt hgt)
    rw [Nat.succ_mul] at hmul
    have hbelow : x.gapBelow * d ≤ 4 * (d * pow2 e) := by
      have hle : x.gapBelow ≤ 4 * pow2 e := by
        unfold gapBelow
        rw [hpow]
        split <;> omega
      have hmul' := Nat.mul_le_mul_right d hle
      have hassoc : 4 * pow2 e * d = 4 * (d * pow2 e) := by ring
      omega
    rw [h53, Nat.mul_assoc] at hn
    omega
  have hbelow : x.gapBelow * d = 2 * (d * pow2 e) := by
    unfold gapBelow
    rw [if_pos ⟨hmantissa, by omega⟩, hpow]
    ring
  rw [hmantissa, hbelow] at hlower
  rw [h53, Nat.mul_assoc] at hn
  have hlarge : 1 * (d * pow2 e) ≤ pow2 52 * (d * pow2 e) :=
    Nat.mul_le_mul_right _ (by decide)
  refine ⟨hmantissa, ?_, ?_⟩
  · apply (Nat.le_div_iff_mul_le hd).mpr
    rw [pow2_add]
    have hassoc : pow2 52 * pow2 e * d = pow2 52 * (d * pow2 e) := by ring
    omega
  · rw [h53]
    apply StrategyDoc.roundQuotient_eq hunit
    · rw [Nat.mul_assoc]
      omega
    · rw [Nat.mul_assoc]
      omega
    · intro hodd
      omega

/-- **A fraction is rounded to the double that it is near to.** -/
theorem ofQuotient?_of_near (negative : Bool) :
    ofQuotient? negative n d = some { x with negative := negative } := by
  have hdiv := h.div_lt hd
  have hmantissa := x.mantissa_lt
  -- Below a power of two the quotient has one bit less, and rounding carries into the next one.
  by_cases hfull : x.exponent = 0 ∨ pow2 (52 + x.exponent) ≤ n / d
  · have hexponent : exponentFor (n / d) = x.exponent := by
      rcases hfull with hzero | hle
      · rw [hzero] at hdiv ⊢
        exact exponentFor_eq_zero hdiv
      · exact exponentFor_eq hle hdiv
    unfold ofQuotient?
    dsimp only
    rw [hexponent, h.roundQuotient_eq hd, if_neg (Nat.ne_of_lt hmantissa)]
    exact ofParts?_parts x negative
  · obtain ⟨hzero, hlt⟩ := not_or.mp hfull
    obtain ⟨e, he⟩ := Nat.exists_eq_succ_of_ne_zero hzero
    have hsum : 52 + x.exponent = 53 + e := by omega
    rw [hsum] at hlt
    obtain ⟨hpower, hle, hround⟩ := h.of_div_lt hd he (Nat.lt_of_not_le hlt)
    have hexponent : exponentFor (n / d) = e := exponentFor_eq hle (Nat.lt_of_not_le hlt)
    unfold ofQuotient?
    dsimp only
    rw [hexponent, hround, if_pos rfl, ← hpower, ← Nat.succ_eq_add_one, ← he]
    exact ofParts?_parts x negative

end near

/-! ### Doubles that need no rounding -/

theorem ofQuotient?_units (x : Binary64) {d : Nat} (hd : 0 < d) (negative : Bool) :
    ofQuotient? negative (x.units * d) d = some { x with negative := negative } :=
  ofQuotient?_of_near hd (x.near_units hd) negative

/-- What has at most 53 bits above a place among the units is a double. -/
theorem exists_units_eq {m k : Nat} (hm : 0 < m) (hbits : m < pow2 53) (hlower : 52 ≤ k)
    (hupper : k ≤ 2045) : ∃ x : Binary64, x.negative = false ∧ x.units = m * pow2 k := by
  have hlog : m.log2 ≤ 52 := Nat.le_of_lt_succ ((Nat.log2_lt (Nat.ne_of_gt hm)).mpr hbits)
  have hself : pow2 m.log2 ≤ m := Nat.log2_self_le (Nat.ne_of_gt hm)
  have hlt : m < pow2 (m.log2 + 1) := Nat.lt_log2_self
  have hshift : ∀ n, pow2 n * pow2 (52 - m.log2) = pow2 (n + (52 - m.log2)) :=
    fun n => (pow2_add _ _).symm
  have hlarge : pow2 52 ≤ m * pow2 (52 - m.log2) := by
    have hmul := Nat.mul_le_mul_right (pow2 (52 - m.log2)) hself
    have hsum : m.log2 + (52 - m.log2) = 52 := by omega
    rwa [hshift, hsum] at hmul
  have hsmall : m * pow2 (52 - m.log2) < pow2 53 := by
    have hmul := Nat.mul_lt_mul_of_pos_right hlt (pow2_pos (52 - m.log2))
    have hsum : m.log2 + 1 + (52 - m.log2) = 53 := by omega
    rwa [hshift, hsum] at hmul
  refine ⟨⟨false, m * pow2 (52 - m.log2), k - (52 - m.log2), hsmall, .inr hlarge, by omega⟩,
    rfl, ?_⟩
  have hsum : 52 - m.log2 + (k - (52 - m.log2)) = k := by omega
  unfold units
  rw [Nat.mul_assoc, ← pow2_add, hsum]

end Binary64

end StrategyDoc
