/-! # Powers of two and ten

The powers that scale binary and decimal numbers, and how they compare: ten to the 28th is
more than two to the 93rd, so a power of ten is at least the power of two whose exponent is
`93 / 28` times as large (`pow2_le_pow10`). -/

namespace StrategyDoc

/-- The power `2 ^ n`. -/
def pow2 (n : Nat) : Nat := Nat.pow 2 n

/-- The power `10 ^ n`. -/
def pow10 (n : Nat) : Nat := Nat.pow 10 n

theorem pow2_pos (n : Nat) : 0 < pow2 n := Nat.pow_pos (by decide)

theorem pow10_pos (n : Nat) : 0 < pow10 n := Nat.pow_pos (by decide)

theorem pow2_add (m n : Nat) : pow2 (m + n) = pow2 m * pow2 n := Nat.pow_add 2 m n

theorem pow10_add (m n : Nat) : pow10 (m + n) = pow10 m * pow10 n := Nat.pow_add 10 m n

theorem pow2_le_pow2 {m n : Nat} (h : m ≤ n) : pow2 m ≤ pow2 n :=
  Nat.pow_le_pow_right (by decide) h

theorem pow10_le_pow10 {m n : Nat} (h : m ≤ n) : pow10 m ≤ pow10 n :=
  Nat.pow_le_pow_right (by decide) h

/-- Every number is below the power of two that has one bit more. -/
theorem lt_pow2_log2_succ (n : Nat) : n < pow2 (n.log2 + 1) := Nat.lt_log2_self

theorem pow2_le_pow10 {n i : Nat} (h : 28 * n ≤ 93 * i) : pow2 n ≤ pow10 i := by
  show 2 ^ n ≤ 10 ^ i
  have key : (2 ^ n) ^ 28 ≤ (10 ^ i) ^ 28 := by
    calc (2 ^ n) ^ 28 = 2 ^ (28 * n) := by rw [← Nat.pow_mul, Nat.mul_comm]
      _ ≤ 2 ^ (93 * i) := Nat.pow_le_pow_right (by decide) h
      _ = (2 ^ 93) ^ i := Nat.pow_mul 2 93 i
      _ ≤ (10 ^ 28) ^ i := Nat.pow_le_pow_left (by decide) i
      _ = (10 ^ i) ^ 28 := by rw [← Nat.pow_mul, ← Nat.pow_mul, Nat.mul_comm]
  exact (Nat.pow_le_pow_iff_left (by decide)).mp key

end StrategyDoc
