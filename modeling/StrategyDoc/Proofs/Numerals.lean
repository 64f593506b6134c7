import StrategyDoc.Json.Number
import StrategyDoc.Json.Numeral

/-! # Numerals that are read back

The reader of numbers on texts made of digits.  Written digits are collected to their value
as long as it does not exceed the bound (`collect_eq`), so the digits before a point give
the significand (`readNumber_digits`), those behind it extend the significand and lower the
exponent (`finishNumber_fraction`), and a written exponent is added (`finishNumber_exponent`).
An integer in range is read back from its own text (`readSigned_integerText`). -/

namespace StrategyDoc.Json

/-- All of them are digits. -/
def AllDigits (digits : List Char) : Prop := ∀ c ∈ digits, isDigit c = true

/-- The text does not go on with a digit. -/
def NoDigitFollows (rest : List Char) : Prop := ∀ c ∈ rest.head?, isDigit c = false

/-- The text goes on with nothing that a number could take: no digit, no point and no letter
of an exponent. -/
def NumberEnds (rest : List Char) : Prop :=
  ∀ c ∈ rest.head?, isDigit c = false ∧ c ≠ '.' ∧ c ≠ 'e' ∧ c ≠ 'E'

theorem NumberEnds.noDigitFollows {rest : List Char} (h : NumberEnds rest) :
    NoDigitFollows rest := fun c hc => (h c hc).1

theorem numberEnds_nil : NumberEnds [] := nofun

theorem numberEnds_cons {c : Char} {rest : List Char} :
    NumberEnds (c :: rest) ↔ isDigit c = false ∧ c ≠ '.' ∧ c ≠ 'e' ∧ c ≠ 'E' := by
  simp [NumberEnds]

theorem noDigitFollows_cons {c : Char} {rest : List Char} :
    NoDigitFollows (c :: rest) ↔ isDigit c = false := by
  simp [NoDigitFollows]

/-! ### Digits -/

theorem isDigit_of_isDigit {c : Char} (h : c.isDigit = true) : isDigit c = true := by
  simpa [Char.isDigit, isDigit, Char.le_def] using h

theorem allDigits_toDigits (n : Nat) : AllDigits (Nat.toDigits 10 n) := by
  intro c hc
  exact isDigit_of_isDigit (Nat.isDigit_of_mem_toDigits (by decide) (by decide) hc)

theorem allDigits_append {digits others : List Char} :
    AllDigits (digits ++ others) ↔ AllDigits digits ∧ AllDigits others := by
  simp [AllDigits, or_imp, forall_and]

theorem allDigits_replicate_zero (count : Nat) : AllDigits (List.replicate count '0') := by
  intro c hc
  rw [List.eq_of_mem_replicate hc]
  decide

theorem AllDigits.take {digits : List Char} (h : AllDigits digits) (count : Nat) :
    AllDigits (digits.take count) := fun c hc => h c (List.mem_of_mem_take hc)

theorem AllDigits.drop {digits : List Char} (h : AllDigits digits) (count : Nat) :
    AllDigits (digits.drop count) := fun c hc => h c (List.mem_of_mem_drop hc)

theorem exists_toDigits_eq_cons (n : Nat) :
    ∃ d rest, Nat.toDigits 10 n = d :: rest ∧ isDigit d = true := by
  obtain ⟨d, rest, hcons⟩ := List.exists_cons_of_ne_nil (Nat.toDigits_ne_nil (n := n) (b := 10))
  have hmem : d ∈ Nat.toDigits 10 n := by simp [hcons]
  exact ⟨d, rest, hcons, allDigits_toDigits n d hmem⟩

/-- The digits of a positive number start with none that is zero. -/
theorem head?_toDigits_ne_zero {n : Nat} (hn : 0 < n) :
    (Nat.toDigits 10 n).head? ≠ some '0' := by
  induction n using Nat.strongRecOn with
  | ind n ih =>
      by_cases hsmall : n < 10
      · have hdigit : ∀ d < 10, 0 < d → Nat.digitChar d ≠ '0' := by decide
        rw [Nat.toDigits_of_lt_base hsmall, List.head?_cons]
        intro h
        exact hdigit n hsmall hn (Option.some.inj h)
      · have hdiv := ih (n / 10) (by omega) (by omega)
        obtain ⟨d, rest, hcons, -⟩ := exists_toDigits_eq_cons (n / 10)
        rw [Nat.toDigits_of_base_le (by decide) (by omega), hcons]
        rwa [hcons] at hdiv

theorem spanDigits_eq {digits rest : List Char} (hdigits : AllDigits digits)
    (hrest : NoDigitFollows rest) : spanDigits (digits ++ rest) = (digits, rest) := by
  have hstop : rest.takeWhile isDigit = [] ∧ rest.dropWhile isDigit = rest := by
    cases rest with
    | nil => exact ⟨rfl, rfl⟩
    | cons c rest =>
        have hc := noDigitFollows_cons.mp hrest
        constructor <;> simp [hc]
  unfold spanDigits
  rw [List.takeWhile_append_of_pos hdigits, List.dropWhile_append_of_pos hdigits, hstop.1,
    hstop.2, List.append_nil]

/-! ### Collecting -/

theorem le_ofDigitChars (value : Nat) (digits : List Char) :
    value ≤ Nat.ofDigitChars 10 digits value := by
  rw [Nat.ofDigitChars_eq_ofDigitChars_zero]
  have hpow : 1 * value ≤ 10 ^ digits.length * value :=
    Nat.mul_le_mul_right value (Nat.pow_pos (by decide))
  omega

/-- Digits whose value keeps to the bound are all counted. -/
theorem collect_eq {bound value : Nat} {digits : List Char}
    (h : Nat.ofDigitChars 10 digits value ≤ bound) :
    collect bound value digits = (Nat.ofDigitChars 10 digits value, []) := by
  induction digits generalizing value with
  | nil => simp [collect]
  | cons d rest ih =>
      have hnext : 10 * value + (d.toNat - '0'.toNat) = value * 10 + digitValue d := by
        unfold digitValue
        omega
      rw [Nat.ofDigitChars_cons, hnext] at h ⊢
      have hle := Nat.le_trans (le_ofDigitChars _ rest) h
      simp only [collect]
      rw [if_pos hle, ih h]

/-! ### Parts of a number -/

section parts

variable {negative : Bool} {significand : Nat} {digits rest : List Char}

/-- Digits that do not start with zero are the significand of a number. -/
theorem readNumber_digits (hne : digits ≠ []) (hdigits : AllDigits digits)
    (hzero : digits.head? ≠ some '0') (hrest : NoDigitFollows rest)
    (hmax : Nat.ofDigitChars 10 digits 0 ≤ maxSignificand) :
    readNumber negative (digits ++ rest)
      = finishNumber negative (Nat.ofDigitChars 10 digits 0) [] rest := by
  cases digits with
  | nil => exact absurd rfl hne
  | cons d others =>
      have hd : d ≠ '0' := fun h => hzero (by rw [h, List.head?_cons])
      unfold readNumber
      split
      · next h => cases h
      · next h =>
          cases h
          exact absurd rfl hd
      · rw [spanDigits_eq hdigits hrest]
        simp [collect_eq hmax]

/-- A single zero is a significand as well. -/
theorem readNumber_zero (hrest : NoDigitFollows rest) :
    readNumber negative ('0' :: rest) = finishNumber negative 0 [] rest := by
  cases rest with
  | nil => rfl
  | cons next more =>
      have hnext := noDigitFollows_cons.mp hrest
      simp [readNumber, hnext]

/-- The digits of a number are its significand. -/
theorem readNumber_toDigits (hmax : significand ≤ maxSignificand) (hrest : NoDigitFollows rest) :
    readNumber negative (Nat.toDigits 10 significand ++ rest)
      = finishNumber negative significand [] rest := by
  by_cases hn : significand = 0
  · subst hn
    exact readNumber_zero hrest
  · have hvalue : Nat.ofDigitChars 10 (Nat.toDigits 10 significand) 0 = significand :=
      Nat.ofDigitChars_ten_toDigits
    rw [readNumber_digits Nat.toDigits_ne_nil (allDigits_toDigits _)
      (head?_toDigits_ne_zero (by omega)) hrest (by omega), hvalue]

theorem finishNumber_end (hrest : NumberEnds rest) :
    finishNumber negative significand [] rest = .ok (finishInteger negative significand, rest) := by
  unfold finishNumber
  split
  · next h => exact absurd rfl (numberEnds_cons.mp hrest).2.1
  · next h => exact absurd rfl (numberEnds_cons.mp hrest).2.2.1
  · next h => exact absurd rfl (numberEnds_cons.mp hrest).2.2.2
  · rfl

theorem finishScaled_end {exponent : Int} (hrest : NumberEnds rest) :
    finishScaled negative significand exponent rest
      = finishFloat negative significand exponent rest := by
  unfold finishScaled
  split
  · exact absurd rfl (numberEnds_cons.mp hrest).2.2.1
  · exact absurd rfl (numberEnds_cons.mp hrest).2.2.2
  · rfl

/-- Digits behind a point extend the significand and lower the exponent. -/
theorem finishNumber_fraction (hne : digits ≠ []) (hdigits : AllDigits digits)
    (hrest : NoDigitFollows rest)
    (hmax : Nat.ofDigitChars 10 digits significand ≤ maxSignificand) :
    finishNumber negative significand [] ('.' :: (digits ++ rest))
      = finishScaled negative (Nat.ofDigitChars 10 digits significand) (-digits.length) rest := by
  cases digits with
  | nil => exact absurd rfl hne
  | cons d others =>
      rw [finishNumber, finishFraction, spanDigits_eq hdigits hrest]
      simp [collect_eq hmax]

/-- A written exponent is added. -/
theorem finishScaled_exponent {exponent power : Int}
    (hpower : power.natAbs ≤ maxExponent) (hrest : NoDigitFollows rest) :
    finishScaled negative significand exponent ('e' :: (Decimal.exponentChars power ++ rest))
      = finishFloat negative significand (exponent + power) rest := by
  have hdigits : ∀ {n : Nat} {down : Bool}, n ≤ maxExponent →
      finishExponentDigits negative significand exponent down (Nat.toDigits 10 n ++ rest)
        = finishFloat negative significand
            (if down then exponent - n else exponent + n) rest := by
    intro n down hn
    have hvalue : Nat.ofDigitChars 10 (Nat.toDigits 10 n) 0 = n := Nat.ofDigitChars_ten_toDigits
    have hcollect : collect maxExponent 0 (Nat.toDigits 10 n) = (n, []) := by
      rw [collect_eq (by omega), hvalue]
    obtain ⟨d, others, hcons, -⟩ := exists_toDigits_eq_cons n
    unfold finishExponentDigits
    rw [spanDigits_eq (allDigits_toDigits n) hrest, hcons]
    rw [hcons] at hcollect
    simp [hcollect]
  cases power with
  | ofNat n => exact hdigits hpower
  | negSucc n => exact hdigits hpower

theorem finishNumber_exponent {power : Int} (hpower : power.natAbs ≤ maxExponent)
    (hrest : NoDigitFollows rest) :
    finishNumber negative significand [] ('e' :: (Decimal.exponentChars power ++ rest))
      = finishFloat negative significand power rest := by
  have h : finishScaled negative significand 0 ('e' :: (Decimal.exponentChars power ++ rest)) = _ :=
    finishScaled_exponent hpower hrest
  rw [Int.zero_add] at h
  exact h

end parts

/-! ### Signed numbers -/

/-- Read a number with its sign. -/
def readSigned : List Char → Except Fault (Number × List Char)
  | '-' :: rest => readNumber true rest
  | text => readNumber false text

/-- The text goes on with a digit or a sign. -/
def NumberStarts (text : List Char) : Prop :=
  ∃ c rest, text = c :: rest ∧ (c = '-' ∨ isDigit c = true)

theorem readSigned_eq_readNumber {c : Char} {rest : List Char} (hc : isDigit c = true) :
    readSigned (c :: rest) = readNumber false (c :: rest) := by
  have hsign : c ≠ '-' := by
    rintro rfl
    revert hc
    decide
  unfold readSigned
  split
  · next h =>
      cases h
      exact absurd rfl hsign
  · rfl

/-- The integers that a text can denote. -/
def Number.InRange (value : Int) : Prop := minInteger ≤ value ∧ value ≤ maxInteger

theorem numberStarts_integerText (value : Int) (rest : List Char) :
    NumberStarts (integerText value ++ rest) := by
  cases value with
  | ofNat n =>
      obtain ⟨d, others, hcons, hd⟩ := exists_toDigits_eq_cons n
      refine ⟨d, others ++ rest, ?_, .inr hd⟩
      rw [integerText, hcons, List.cons_append]
  | negSucc n => exact ⟨'-', Nat.toDigits 10 (n + 1) ++ rest, rfl, .inl rfl⟩

/-- **An integer in range is read back from its text.** -/
theorem readSigned_integerText {value : Int} {rest : List Char} (h : Number.InRange value)
    (hrest : NumberEnds rest) :
    readSigned (integerText value ++ rest) = .ok (.integer value, rest) := by
  obtain ⟨hmin, hmax⟩ := h
  have hdigit := hrest.noDigitFollows
  cases value with
  | ofNat n =>
      have hn : n ≤ maxSignificand := Int.ofNat_le.mp hmax
      obtain ⟨d, others, hcons, hd⟩ := exists_toDigits_eq_cons n
      have hread : readNumber false (integerText n ++ rest) = _ :=
        (readNumber_toDigits hn hdigit).trans (finishNumber_end hrest)
      show readSigned (Nat.toDigits 10 n ++ rest) = _
      rw [hcons, List.cons_append, readSigned_eq_readNumber hd, ← List.cons_append, ← hcons]
      exact hread
  | negSucc n =>
      unfold Number.minInteger at hmin
      have hn : n + 1 ≤ maxSignificand := by
        unfold maxSignificand
        omega
      have hinteger : finishInteger true (n + 1) = .integer (Int.negSucc n) := by
        unfold finishInteger Number.minInteger
        rw [if_pos rfl, if_neg (by omega)]
        rfl
      show readNumber true (Nat.toDigits 10 (n + 1) ++ rest) = _
      rw [readNumber_toDigits hn hdigit, finishNumber_end hrest, hinteger]

/-! ### Lines -/

theorem AllDigits.newline_notMem {digits : List Char} (h : AllDigits digits) : '\n' ∉ digits :=
  fun hmem => absurd (h _ hmem) (by decide)

theorem newline_notMem_integerText (value : Int) : '\n' ∉ integerText value := by
  cases value with
  | ofNat n => exact (allDigits_toDigits n).newline_notMem
  | negSucc n =>
      have hdigits := (allDigits_toDigits (n + 1)).newline_notMem
      simp [integerText, hdigits]

theorem newline_notMem_positional (d : Decimal) : '\n' ∉ d.positional := by
  have hdigits : AllDigits d.digitChars := allDigits_toDigits d.digits
  have hall := hdigits.newline_notMem
  unfold Decimal.positional
  split
  · simp [hall]
  · simp [hall]
  · next place _ _ _ =>
      have htake := (hdigits.take place).newline_notMem
      have hdrop := (hdigits.drop place).newline_notMem
      simp [htake, hdrop]
  · simp [hall]

theorem newline_notMem_scientific (d : Decimal) : '\n' ∉ d.scientific := by
  have hdigits : '\n' ∉ d.digitChars := (allDigits_toDigits d.digits).newline_notMem
  have hexponent : '\n' ∉ Decimal.exponentChars (d.pointPlace - 1) := by
    cases d.pointPlace - 1 with
    | ofNat n => simp [Decimal.exponentChars, (allDigits_toDigits n).newline_notMem]
    | negSucc n => simp [Decimal.exponentChars, (allDigits_toDigits (n + 1)).newline_notMem]
  unfold Decimal.scientific
  dsimp only
  split
  · next first second rest hcons =>
      rw [hcons] at hdigits
      simp only [List.mem_cons, not_or] at hdigits
      simp [hdigits, hexponent]
  · simp [hdigits, hexponent]

/-- The text of a number stands on one line. -/
theorem newline_notMem_text (n : Number) : '\n' ∉ n.text := by
  cases n with
  | integer value => exact newline_notMem_integerText value
  | float x =>
      have hmagnitude : '\n' ∉ (if x.isZero then ['0', '.', '0'] else x.shortest.text) := by
        split
        · decide
        · unfold Decimal.text
          split
          · exact newline_notMem_positional _
          · exact newline_notMem_scientific _
      unfold Number.text Binary64.text
      dsimp only
      split
      · simp [hmagnitude]
      · exact hmagnitude

end StrategyDoc.Json
