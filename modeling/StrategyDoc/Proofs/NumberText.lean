import StrategyDoc.Proofs.Readers
import StrategyDoc.Proofs.ShortestDecimal

/-! # The text of a double is a decimal

The text of a double spells a decimal (`Binary64.spelled`): the shortest one, or, if that one
has neither a fraction nor an exponent, the same number with a zero behind the point.  The
reader collects just this decimal and leaves the rounding to `Binary64.ofDecimal?`
(`readSigned_text`).  A double is therefore read back from its text exactly if the decimal
that it spells is rounded to it (`Binary64.reread_eq_some_iff`), and this it is if no more than
one rounding takes place (`Binary64.survives_of_exact`). -/

namespace StrategyDoc

namespace Decimal

/-- The decimal as its text spells it. -/
def spelled (d : Decimal) : Decimal :=
  if leastPlace ≤ d.pointPlace ∧ d.pointPlace ≤ greatestPlace then
    match d.exponent with
    | .ofNat zeros => ⟨d.digits * pow10 (zeros + 1), -1⟩
    | .negSucc _ => d
  else d

theorem spelled_digits_pos {d : Decimal} (h : 0 < d.digits) : 0 < d.spelled.digits := by
  unfold spelled
  split
  · split
    · exact Nat.mul_pos h (pow10_pos _)
    · exact h
  · exact h

/-- A decimal such as the search for the shortest one finds: it is not zero, its digits can be
collected, and its exponent is moderate. -/
structure Moderate (d : Decimal) : Prop where
  digits_pos : 0 < d.digits
  digits_lt : d.digits < pow2 57
  exponent_le : d.exponent.natAbs ≤ 700

section moderate

variable {d : Decimal} (h : d.Moderate)

include h

theorem Moderate.digits_le_maxSignificand : d.digits ≤ Json.maxSignificand := by
  have hlt := h.digits_lt
  have h57 : pow2 57 = 144115188075855872 := rfl
  unfold Json.maxSignificand
  omega

theorem Moderate.length_digitChars_le : d.digitChars.length ≤ 18 := by
  have hlt : d.digits < 10 ^ 18 := Nat.lt_trans h.digits_lt (by decide)
  exact (Nat.length_toDigits_le_iff (by decide) (by decide)).mpr hlt

theorem Moderate.natAbs_pointPlace_le : d.pointPlace.natAbs ≤ 718 := by
  have hlength := h.length_digitChars_le
  have hexponent := h.exponent_le
  unfold pointPlace
  omega

theorem Moderate.head?_digitChars : d.digitChars.head? ≠ some '0' :=
  Json.head?_toDigits_ne_zero h.digits_pos

end moderate

theorem allDigits_digitChars (d : Decimal) : Json.AllDigits d.digitChars :=
  Json.allDigits_toDigits d.digits

theorem ofDigitChars_digitChars (d : Decimal) : Nat.ofDigitChars 10 d.digitChars 0 = d.digits :=
  Nat.ofDigitChars_ten_toDigits

theorem exists_digitChars_eq_cons (d : Decimal) :
    ∃ c rest, d.digitChars = c :: rest ∧ Json.isDigit c = true :=
  Json.exists_toDigits_eq_cons d.digits

end Decimal

namespace Json

open Decimal

section decimal

variable {negative : Bool} {digits rest : List Char} {significand : Nat}

theorem readNumber_point {more : List Char} (hne : digits ≠ []) (hdigits : AllDigits digits)
    (hzero : digits.head? ≠ some '0') (hmoreNe : more ≠ []) (hmore : AllDigits more)
    (hvalue : Nat.ofDigitChars 10 (digits ++ more) 0 = significand)
    (hmax : significand ≤ maxSignificand) (hrest : NoDigitFollows rest) :
    readNumber negative (digits ++ '.' :: (more ++ rest))
      = finishScaled negative significand (-more.length) rest := by
  rw [Nat.ofDigitChars_append] at hvalue
  have hle := le_ofDigitChars (Nat.ofDigitChars 10 digits 0) more
  rw [readNumber_digits hne hdigits hzero (noDigitFollows_cons.mpr (by decide)) (by omega),
    finishNumber_fraction hmoreNe hmore hrest (by omega), hvalue]

theorem readNumber_zero_point (hne : digits ≠ []) (hdigits : AllDigits digits)
    (hvalue : Nat.ofDigitChars 10 digits 0 = significand) (hmax : significand ≤ maxSignificand)
    (hrest : NoDigitFollows rest) :
    readNumber negative ('0' :: '.' :: (digits ++ rest))
      = finishScaled negative significand (-digits.length) rest := by
  rw [readNumber_zero (noDigitFollows_cons.mpr (by decide)),
    finishNumber_fraction hne hdigits hrest (by omega), hvalue]

end decimal

section positional

variable {negative : Bool} {d : Decimal} (h : d.Moderate) {rest : List Char}
  (hrest : NumberEnds rest)

include h hrest

theorem readNumber_whole {zeros : Nat} (hexponent : d.exponent = .ofNat zeros)
    (hplace : d.pointPlace ≤ greatestPlace) :
    readNumber negative (d.digitChars ++ List.replicate zeros '0' ++ '.' :: (['0'] ++ rest))
      = finishFloat negative (d.digits * pow10 (zeros + 1)) (-1) rest := by
  have hhead := h.head?_digitChars
  obtain ⟨c, others, hcons, -⟩ := d.exists_digitChars_eq_cons
  have hvalue : Nat.ofDigitChars 10 (d.digitChars ++ List.replicate zeros '0' ++ ['0']) 0
      = d.digits * pow10 (zeros + 1) := by
    have hten : 10 ^ (zeros + 1) = pow10 (zeros + 1) := rfl
    rw [List.append_assoc, Nat.ofDigitChars_append, d.ofDigitChars_digitChars,
      ← List.replicate_succ', Nat.ofDigitChars_replicate_zero, hten, Nat.mul_comm]
  have hmax : d.digits * pow10 (zeros + 1) ≤ maxSignificand := by
    have hlength : d.digitChars.length + zeros ≤ 16 := by
      unfold pointPlace greatestPlace at hplace
      rw [hexponent, Int.ofNat_eq_natCast] at hplace
      omega
    have hdigits : d.digits < 10 ^ d.digitChars.length :=
      (Nat.length_toDigits_le_iff (by decide) Nat.length_toDigits_pos).mp (Nat.le_refl _)
    have hpos : 0 < pow10 (zeros + 1) := pow10_pos _
    calc d.digits * pow10 (zeros + 1)
        ≤ pow10 d.digitChars.length * pow10 (zeros + 1) :=
          Nat.mul_le_mul_right _ (Nat.le_of_lt hdigits)
      _ = pow10 (d.digitChars.length + (zeros + 1)) := (pow10_add _ _).symm
      _ ≤ pow10 17 := pow10_le_pow10 (by omega)
      _ ≤ maxSignificand := by decide
  have hzero : AllDigits ['0'] := allDigits_replicate_zero 1
  rw [readNumber_point (by simp [hcons])
    (allDigits_append.mpr ⟨d.allDigits_digitChars, allDigits_replicate_zero zeros⟩)
    (by rw [hcons] at hhead ⊢; exact hhead) (List.cons_ne_nil _ _) hzero hvalue hmax
    hrest.noDigitFollows, finishScaled_end hrest]
  rfl

theorem readNumber_mixed {n place : Nat} (hexponent : d.exponent = .negSucc n)
    (hplace : d.pointPlace = .ofNat (place + 1)) :
    readNumber negative (d.digitChars.take (place + 1)
        ++ '.' :: (d.digitChars.drop (place + 1) ++ rest))
      = finishFloat negative d.digits d.exponent rest := by
  have hall := d.allDigits_digitChars
  have hhead := h.head?_digitChars
  obtain ⟨c, others, hcons, -⟩ := d.exists_digitChars_eq_cons
  have hlength : (d.digitChars.length : Int) + d.exponent = place + 1 := hplace
  have hshort : place + 1 < d.digitChars.length := by
    rw [hexponent, Int.negSucc_eq] at hlength
    omega
  have hvalue : Nat.ofDigitChars 10
      (d.digitChars.take (place + 1) ++ d.digitChars.drop (place + 1)) 0 = d.digits := by
    rw [List.take_append_drop, d.ofDigitChars_digitChars]
  have hdrop : d.digitChars.drop (place + 1) ≠ [] := by
    intro hnil
    have hle := List.drop_eq_nil_iff.mp hnil
    omega
  have hscale : -((d.digitChars.drop (place + 1)).length : Int) = d.exponent := by
    rw [List.length_drop]
    omega
  rw [readNumber_point (by simp [hcons]) (hall.take _)
    (by rw [hcons] at hhead ⊢; exact hhead) hdrop (hall.drop _) hvalue
    h.digits_le_maxSignificand hrest.noDigitFollows, finishScaled_end hrest, hscale]

theorem readNumber_fraction {zeros : Nat} (hplace : d.pointPlace = -zeros) :
    readNumber negative ('0' :: '.' :: (List.replicate zeros '0' ++ d.digitChars ++ rest))
      = finishFloat negative d.digits d.exponent rest := by
  have hvalue : Nat.ofDigitChars 10 (List.replicate zeros '0' ++ d.digitChars) 0 = d.digits := by
    rw [Nat.ofDigitChars_append, Nat.ofDigitChars_replicate_zero, Nat.mul_zero,
      d.ofDigitChars_digitChars]
  have hne : List.replicate zeros '0' ++ d.digitChars ≠ [] := by
    intro hnil
    exact Nat.toDigits_ne_nil (List.append_eq_nil_iff.mp hnil).2
  have hlength : (d.digitChars.length : Int) + d.exponent = -zeros := hplace
  have hscale : -((List.replicate zeros '0' ++ d.digitChars).length : Int) = d.exponent := by
    rw [List.length_append, List.length_replicate]
    omega
  rw [readNumber_zero_point hne
    (allDigits_append.mpr ⟨allDigits_replicate_zero zeros, d.allDigits_digitChars⟩) hvalue
    h.digits_le_maxSignificand hrest.noDigitFollows, finishScaled_end hrest, hscale]

/-- **A positional text is read as the decimal that it spells.** -/
theorem readNumber_positional (hlow : leastPlace ≤ d.pointPlace)
    (hplace : d.pointPlace ≤ greatestPlace) :
    readNumber negative (d.positional ++ rest)
      = finishFloat negative d.spelled.digits d.spelled.exponent rest := by
  cases hexponent : d.exponent with
  | ofNat zeros =>
      have hspelled : d.spelled = ⟨d.digits * pow10 (zeros + 1), -1⟩ := by
        unfold spelled
        rw [if_pos ⟨hlow, hplace⟩, hexponent]
      have htext : d.positional = d.digitChars ++ List.replicate zeros '0' ++ ['.', '0'] := by
        unfold positional
        rw [hexponent]
      rw [hspelled, htext, List.append_assoc]
      exact readNumber_whole h hrest hexponent hplace
  | negSucc n =>
      have hspelled : d.spelled = d := by
        unfold spelled
        rw [if_pos ⟨hlow, hplace⟩, hexponent]
      rw [hspelled]
      cases hpoint : d.pointPlace with
      | ofNat place =>
          cases place with
          | zero =>
              have htext : d.positional = '0' :: '.' :: (List.replicate 0 '0' ++ d.digitChars) := by
                unfold positional
                rw [hexponent, hpoint]
                rfl
              rw [htext]
              exact readNumber_fraction h hrest hpoint
          | succ place =>
              have htext : d.positional = d.digitChars.take (place + 1)
                  ++ '.' :: d.digitChars.drop (place + 1) := by
                unfold positional
                rw [hexponent, hpoint]
                rfl
              rw [htext, List.append_assoc]
              exact readNumber_mixed h hrest hexponent hpoint
      | negSucc zeros =>
          have htext : d.positional
              = '0' :: '.' :: (List.replicate (zeros + 1) '0' ++ d.digitChars) := by
            unfold positional
            rw [hexponent, hpoint]
          rw [htext]
          exact readNumber_fraction h hrest hpoint

theorem readNumber_scientific :
    readNumber negative (d.scientific ++ rest) = finishFloat negative d.digits d.exponent rest := by
  have hhead := h.head?_digitChars
  have hall := d.allDigits_digitChars
  have hvalue := d.ofDigitChars_digitChars
  have hmax := h.digits_le_maxSignificand
  have hplace := h.natAbs_pointPlace_le
  have hpower : (d.pointPlace - 1).natAbs ≤ maxExponent := by
    unfold maxExponent
    omega
  have hpoint : d.pointPlace = d.digitChars.length + d.exponent := rfl
  have hexponent : ∀ rest, NoDigitFollows ('e' :: rest) :=
    fun _ => noDigitFollows_cons.mpr (by decide)
  obtain ⟨first, others, hcons, -⟩ := d.exists_digitChars_eq_cons
  unfold scientific
  rw [hcons] at hhead hall hvalue hpoint ⊢
  cases others with
  | nil =>
      have hscale : d.pointPlace - 1 = d.exponent := by
        rw [List.length_singleton] at hpoint
        omega
      show readNumber negative ([first] ++ 'e' :: (exponentChars (d.pointPlace - 1) ++ rest)) = _
      rw [readNumber_digits (List.cons_ne_nil _ _) hall hhead (hexponent _) (by omega), hvalue,
        finishNumber_exponent hpower hrest.noDigitFollows, hscale]
  | cons second more =>
      have hscale : -((second :: more).length : Int) + (d.pointPlace - 1) = d.exponent := by
        rw [List.length_cons] at hpoint
        omega
      have hfirst : AllDigits [first] := hall.take 1
      have hmore : AllDigits (second :: more) := hall.drop 1
      have htail : 'e' :: exponentChars (d.pointPlace - 1) ++ rest
          = 'e' :: (exponentChars (d.pointPlace - 1) ++ rest) := rfl
      show readNumber negative ([first] ++ '.' :: ((second :: more ++ 'e' ::
        exponentChars (d.pointPlace - 1)) ++ rest)) = _
      rw [List.append_assoc, htail, readNumber_point (List.cons_ne_nil _ _) hfirst hhead
        (List.cons_ne_nil _ _) hmore hvalue hmax (hexponent _),
        finishScaled_exponent hpower hrest.noDigitFollows, hscale]

/-- **The text of a decimal is read as the decimal that it spells.** -/
theorem readNumber_text :
    readNumber negative (d.text ++ rest)
      = finishFloat negative d.spelled.digits d.spelled.exponent rest := by
  unfold text
  by_cases hplace : leastPlace ≤ d.pointPlace ∧ d.pointPlace ≤ greatestPlace
  · rw [if_pos hplace]
    exact readNumber_positional h hrest hplace.1 hplace.2
  · have hspelled : d.spelled = d := if_neg hplace
    rw [if_neg hplace, hspelled]
    exact readNumber_scientific h hrest

end positional

theorem exists_text_eq_cons (d : Decimal) : ∃ c rest, d.text = c :: rest ∧ isDigit c = true := by
  obtain ⟨first, others, hcons, hfirst⟩ := d.exists_digitChars_eq_cons
  unfold text
  split
  · unfold positional
    split
    · exact ⟨first, _, by rw [hcons]; rfl, hfirst⟩
    · exact ⟨'0', _, rfl, by decide⟩
    · next place hpositive _ _ =>
        obtain ⟨n, rfl⟩ := Nat.exists_eq_succ_of_ne_zero hpositive
        exact ⟨first, _, by rw [hcons]; rfl, hfirst⟩
    · exact ⟨'0', _, rfl, by decide⟩
  · unfold scientific
    rw [hcons]
    cases others with
    | nil => exact ⟨first, _, rfl, hfirst⟩
    | cons second more => exact ⟨first, _, rfl, hfirst⟩

end Json

/-! ### Doubles -/

namespace Binary64

/-- The same magnitude without a sign. -/
def abs (x : Binary64) : Binary64 := { x with negative := false }

/-- The decimal that the text of the double spells, without its sign. -/
def spelled (x : Binary64) : Decimal :=
  if x.isZero then ⟨0, -1⟩ else x.shortest.spelled

theorem moderate_shortest {x : Binary64} (hx : x.isZero = false) : x.shortest.Moderate :=
  ⟨shortest_digits_pos hx, shortest_digits_lt hx, natAbs_shortest_exponent_le hx⟩

/-- The text of the magnitude of a double. -/
def magnitudeText (x : Binary64) : List Char :=
  if x.isZero then ['0', '.', '0'] else x.shortest.text

theorem text_eq (x : Binary64) :
    x.text = if x.negative then '-' :: x.magnitudeText else x.magnitudeText := rfl

theorem exists_magnitudeText_eq_cons (x : Binary64) :
    ∃ c rest, x.magnitudeText = c :: rest ∧ Json.isDigit c = true := by
  unfold magnitudeText
  split
  · exact ⟨'0', _, rfl, by decide⟩
  · exact Json.exists_text_eq_cons x.shortest

theorem numberStarts_text (x : Binary64) (rest : List Char) :
    Json.NumberStarts (x.text ++ rest) := by
  obtain ⟨c, others, hcons, hc⟩ := x.exists_magnitudeText_eq_cons
  rw [text_eq, hcons]
  split
  · exact ⟨'-', _, rfl, .inl rfl⟩
  · exact ⟨c, _, rfl, .inr hc⟩

theorem readNumber_magnitudeText (x : Binary64) (negative : Bool) {rest : List Char}
    (hrest : Json.NumberEnds rest) :
    Json.readNumber negative (x.magnitudeText ++ rest)
      = Json.finishFloat negative x.spelled.digits x.spelled.exponent rest := by
  unfold magnitudeText spelled
  by_cases hx : x.isZero = true
  · have hzero : Json.AllDigits ['0'] := Json.allDigits_replicate_zero 1
    have hvalue : Nat.ofDigitChars 10 ['0'] 0 = 0 := rfl
    have hread : Json.readNumber negative ('0' :: '.' :: (['0'] ++ rest)) = _ :=
      Json.readNumber_zero_point (List.cons_ne_nil _ _) hzero hvalue (Nat.zero_le _)
        hrest.noDigitFollows
    rw [Json.finishScaled_end hrest] at hread
    rw [if_pos hx, if_pos hx]
    exact hread
  · rw [if_neg hx, if_neg hx]
    exact Json.readNumber_text (moderate_shortest (Bool.eq_false_iff.mpr hx)) hrest

/-- **The text of a double is read as the decimal that it spells.** -/
theorem readSigned_text (x : Binary64) {rest : List Char} (hrest : Json.NumberEnds rest) :
    Json.readSigned (x.text ++ rest)
      = Json.finishFloat x.negative x.spelled.digits x.spelled.exponent rest := by
  rw [text_eq]
  cases x.negative with
  | true => exact x.readNumber_magnitudeText true hrest
  | false =>
      obtain ⟨c, others, hcons, hc⟩ := x.exists_magnitudeText_eq_cons
      have hread := x.readNumber_magnitudeText false hrest
      rw [hcons, List.cons_append] at hread
      rw [if_neg (by decide), hcons, List.cons_append, Json.readSigned_eq_readNumber hc]
      exact hread

/-! ### Doubles that survive -/

/-- The decimal that the text of the double spells is rounded to the double. -/
def Survives (x : Binary64) : Prop :=
  ofDecimal? x.spelled.digits x.spelled.exponent = some x.abs

instance (x : Binary64) : Decidable x.Survives :=
  inferInstanceAs (Decidable (_ = some x.abs))

/-- The double as which the text of the double is read, unless it is out of range. -/
def reread (x : Binary64) : Option Binary64 :=
  (ofDecimal? x.spelled.digits x.spelled.exponent).map fun y => if x.negative then -y else y

theorem signed_eq_iff {x y : Binary64} : (if x.negative then -y else y) = x ↔ y = x.abs := by
  obtain ⟨negative, mantissa, exponent, _, _, _⟩ := x
  obtain ⟨negative', mantissa', exponent', _, _, _⟩ := y
  cases negative <;> simp [abs, Neg.neg, neg]

/-- **A double is read back from its text exactly if it survives.** -/
theorem reread_eq_some_iff {x : Binary64} : x.reread = some x ↔ x.Survives := by
  unfold reread Survives
  generalize ofDecimal? x.spelled.digits x.spelled.exponent = read
  cases read with
  | none => exact ⟨nofun, nofun⟩
  | some y => simp [signed_eq_iff]

theorem IsNear.spelled {x : Binary64} {d : Decimal} (h : x.IsNear d) : x.IsNear d.spelled := by
  unfold Decimal.spelled
  split
  · split
    · next zeros hexponent =>
        unfold IsNear at h
        rw [hexponent] at h
        have hten : pow10 (zeros + 1) = pow10 zeros * 10 := rfl
        have hproduct : d.digits * pow10 (zeros + 1) * unitsPerOne
            = d.digits * pow10 zeros * unitsPerOne * 10 := by
          rw [hten]
          ring
        show x.Near (d.digits * pow10 (zeros + 1) * unitsPerOne) (1 * 10)
        rw [hproduct]
        exact (near_mul_right (by decide)).mpr h
    · exact h
  · exact h

theorem abs_of_isZero {x : Binary64} (hx : x.isZero = true) : x.abs = zero false := by
  have hmantissa : x.mantissa = 0 := beq_iff_eq.mp hx
  have hexponent : x.exponent = 0 := by
    apply x.normal.resolve_right
    rw [hmantissa]
    decide
  obtain ⟨negative, mantissa, exponent, _, _, _⟩ := x
  cases hmantissa
  cases hexponent
  rfl

theorem survives_of_isZero {x : Binary64} (hx : x.isZero = true) : x.Survives := by
  have hspelled : x.spelled = ⟨0, -1⟩ := if_pos hx
  have hread : ofDecimal? 0 (-1) = some (zero false) := by decide +kernel
  unfold Survives
  rw [hspelled, abs_of_isZero hx]
  exact hread

/-- **A double survives if the digits of its text and its power of ten are doubles.** -/
theorem survives_of_exact {x : Binary64} (hdigits : x.spelled.digits ≤ pow2 53)
    (hexponent : x.spelled.exponent.natAbs ≤ 22) : x.Survives := by
  by_cases hx : x.isZero = true
  · exact survives_of_isZero hx
  · have hnonzero : x.isZero = false := Bool.eq_false_iff.mpr hx
    have hspelled : x.spelled = x.shortest.spelled := if_neg hx
    unfold Survives
    rw [hspelled] at hdigits hexponent ⊢
    exact ofDecimal?_of_isNear (isNear_shortest hnonzero).spelled
      (Decimal.spelled_digits_pos (shortest_digits_pos hnonzero)) hdigits hexponent

end Binary64

namespace Json

theorem yields_finishFloat (negative : Bool) (significand : Nat) (exponent : Int)
    (rest : List Char) : Yields (finishFloat negative significand exponent rest)
      ((Binary64.ofDecimal? significand exponent).map fun x =>
        .float (if negative then -x else x)) rest := by
  -- The function is unfolded without its arguments: with them, the double that it matches on
  -- would be computed.
  have h : @finishFloat = fun negative significand exponent rest =>
      (Binary64.ofDecimal? significand exponent).elim (.error (.before .numberOutOfRange rest))
        fun x => .ok (.float (if negative then -x else x), rest) := by
    delta finishFloat
    funext negative significand exponent rest
    generalize Binary64.ofDecimal? significand exponent = read
    cases read <;> rfl
  rw [h]
  beta_reduce
  generalize Binary64.ofDecimal? significand exponent = read
  cases read <;> rfl

theorem yields_readSigned_text (x : Binary64) {rest : List Char} (hrest : NumberEnds rest) :
    Yields (readSigned (x.text ++ rest)) (x.reread.map .float) rest := by
  rw [x.readSigned_text hrest, Binary64.reread, Option.map_map]
  exact yields_finishFloat x.negative x.spelled.digits x.spelled.exponent rest

end Json

end StrategyDoc
