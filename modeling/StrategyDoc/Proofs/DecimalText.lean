import StrategyDoc.Proofs.Delimiters
import StrategyDoc.Proofs.NumberText

/-! # Numbers by their texts

The text of a number is a sign and a decimal text: digits, perhaps digits behind a point, and
perhaps an exponent (`DecimalText`).  Such a text shows its parts (`DecimalText.eq_of_chars_eq`),
and its parts are a decimal.  For a double this is the decimal that the text spells, which is
near to the double and to no other, so that different numbers have different texts
(`Json.Number.text_injective`).  An integer has neither a fraction nor an exponent, and a double
has one of them. -/

namespace StrategyDoc

/-- The parts of a decimal text. -/
structure DecimalText where
  whole : List Char
  fraction : List Char
  power : Option Int

namespace DecimalText

/-- Digits behind a point, if there are any. -/
def pointed : List Char → List Char
  | [] => []
  | digits => '.' :: digits

def exponent : Option Int → List Char
  | none => []
  | some power => 'e' :: Decimal.exponentChars power

/-- The text with these parts. -/
def chars (t : DecimalText) : List Char := t.whole ++ (pointed t.fraction ++ exponent t.power)

/-- The decimal with these parts. -/
def decimal (t : DecimalText) : Decimal :=
  ⟨Nat.ofDigitChars 10 (t.whole ++ t.fraction) 0, t.power.getD 0 - t.fraction.length⟩

/-- The digits are digits, with at least one in front. -/
structure Proper (t : DecimalText) : Prop where
  whole_ne_nil : t.whole ≠ []
  whole : Json.AllDigits t.whole
  fraction : Json.AllDigits t.fraction

theorem pointed_of_ne_nil {digits : List Char} (h : digits ≠ []) :
    pointed digits = '.' :: digits := by
  cases digits with
  | nil => exact absurd rfl h
  | cons d digits => rfl

theorem stops_exponent (power : Option Int) : Stops Json.isDigit (exponent power) := by
  cases power with
  | none => exact stops_nil
  | some power => exact stops_cons.mpr rfl

theorem stops_pointed (fraction : List Char) (power : Option Int) :
    Stops Json.isDigit (pointed fraction ++ exponent power) := by
  cases fraction with
  | nil => exact stops_exponent power
  | cons d fraction => exact stops_cons.mpr rfl

/-! ### The parts of a text -/

theorem exponentChars_injective : Function.Injective Decimal.exponentChars := by
  intro power power' h
  cases power with
  | ofNat n =>
      cases power' with
      | ofNat n' => rw [toDigits_injective (by decide) (by decide) (List.cons.inj h).2]
      | negSucc n' => exact absurd (List.cons.inj h).1 (by decide)
  | negSucc n =>
      cases power' with
      | ofNat n' => exact absurd (List.cons.inj h).1 (by decide)
      | negSucc n' =>
          have heq := toDigits_injective (by decide) (by decide) (List.cons.inj h).2
          rw [Nat.succ.inj heq]

theorem exponent_injective : Function.Injective exponent := by
  intro power power' h
  cases power with
  | none =>
      cases power' with
      | none => rfl
      | some power' => cases h
  | some power =>
      cases power' with
      | none => cases h
      | some power' => rw [exponentChars_injective (List.cons.inj h).2]

theorem pointed_append_inj {fraction fraction' : List Char} {power power' : Option Int}
    (hfraction : Json.AllDigits fraction) (hfraction' : Json.AllDigits fraction')
    (h : pointed fraction ++ exponent power = pointed fraction' ++ exponent power') :
    fraction = fraction' ∧ power = power' := by
  have hpoint : ∀ (d : Char) (digits : List Char) (power power' : Option Int),
      exponent power ≠ pointed (d :: digits) ++ exponent power' := by
    intro d digits power power' heq
    cases power with
    | none => cases heq
    | some power => exact absurd (List.cons.inj heq).1 (by decide)
  cases fraction with
  | nil =>
      cases fraction' with
      | nil => exact ⟨rfl, exponent_injective h⟩
      | cons d fraction' => exact absurd h (hpoint d fraction' power power')
  | cons c fraction =>
      cases fraction' with
      | nil => exact absurd h.symm (hpoint c fraction power' power)
      | cons d fraction' =>
          obtain ⟨heq, hpower⟩ := append_inj_of_stops hfraction hfraction' (stops_exponent power)
            (stops_exponent power') (List.cons.inj h).2
          exact ⟨heq, exponent_injective hpower⟩

/-- **A decimal text shows its parts.** -/
theorem Proper.eq_of_chars_eq {t t' : DecimalText} (ht : t.Proper) (ht' : t'.Proper)
    (h : t.chars = t'.chars) : t = t' := by
  obtain ⟨whole, fraction, power⟩ := t
  obtain ⟨whole', fraction', power'⟩ := t'
  obtain ⟨rfl, hmore⟩ := append_inj_of_stops ht.whole ht'.whole (stops_pointed fraction power)
    (stops_pointed fraction' power') h
  obtain ⟨rfl, rfl⟩ := pointed_append_inj ht.fraction ht'.fraction hmore
  rfl

/-! ### The text of a decimal -/

/-- The parts of the text of a decimal that has a fraction or an exponent. -/
structure Spells (t : DecimalText) (text : List Char) (d : Decimal) : Prop where
  proper : t.Proper
  chars_eq : t.chars = text
  decimal_eq : t.decimal = d
  fractional : t.fraction ≠ [] ∨ t.power ≠ none

section positional

variable {d : Decimal}

theorem spells_whole {zeros : Nat} (hexponent : d.exponent = .ofNat zeros) :
    Spells ⟨d.digitChars ++ List.replicate zeros '0', ['0'], none⟩ d.positional
      ⟨d.digits * pow10 (zeros + 1), -1⟩ where
  proper := by
    obtain ⟨c, others, hcons, -⟩ := d.exists_digitChars_eq_cons
    exact ⟨by simp [hcons], Json.allDigits_append.mpr
      ⟨d.allDigits_digitChars, Json.allDigits_replicate_zero zeros⟩,
      Json.allDigits_replicate_zero 1⟩
  chars_eq := by
    unfold Decimal.positional
    rw [hexponent]
    rfl
  decimal_eq := by
    have hten : 10 ^ (zeros + 1) = pow10 (zeros + 1) := rfl
    unfold decimal
    rw [List.append_assoc, Nat.ofDigitChars_append, d.ofDigitChars_digitChars,
      ← List.replicate_succ', Nat.ofDigitChars_replicate_zero, hten, Nat.mul_comm]
    rfl
  fractional := .inl (List.cons_ne_nil _ _)

theorem spells_fraction (zeros : Nat) (hplace : d.pointPlace = -zeros) :
    Spells ⟨['0'], List.replicate zeros '0' ++ d.digitChars, none⟩
      ('0' :: '.' :: (List.replicate zeros '0' ++ d.digitChars)) d := by
  have hne : List.replicate zeros '0' ++ d.digitChars ≠ [] := by
    intro hnil
    exact Nat.toDigits_ne_nil (List.append_eq_nil_iff.mp hnil).2
  refine ⟨⟨List.cons_ne_nil _ _, Json.allDigits_replicate_zero 1, Json.allDigits_append.mpr
    ⟨Json.allDigits_replicate_zero zeros, d.allDigits_digitChars⟩⟩, ?_, ?_, .inl hne⟩
  · unfold chars
    dsimp only
    rw [pointed_of_ne_nil hne]
    simp [exponent]
  · have hdigits : Nat.ofDigitChars 10 (['0'] ++ (List.replicate zeros '0' ++ d.digitChars)) 0
        = d.digits := by
      show Nat.ofDigitChars 10 (List.replicate (zeros + 1) '0' ++ d.digitChars) 0 = d.digits
      rw [Nat.ofDigitChars_append, Nat.ofDigitChars_replicate_zero, Nat.mul_zero,
        d.ofDigitChars_digitChars]
    have hlength : (d.digitChars.length : Int) + d.exponent = -zeros := hplace
    have hexponent : (0 : Int) - (List.replicate zeros '0' ++ d.digitChars).length
        = d.exponent := by
      rw [List.length_append, List.length_replicate]
      omega
    unfold decimal
    rw [hdigits]
    dsimp only [Option.getD_none]
    rw [hexponent]

theorem spells_mixed {n place : Nat} (hexponent : d.exponent = .negSucc n)
    (hplace : d.pointPlace = .ofNat (place + 1)) :
    Spells ⟨d.digitChars.take (place + 1), d.digitChars.drop (place + 1), none⟩
      (d.digitChars.take (place + 1) ++ '.' :: d.digitChars.drop (place + 1)) d := by
  have hlength : (d.digitChars.length : Int) + d.exponent = place + 1 := hplace
  have hshort : place + 1 < d.digitChars.length := by
    rw [hexponent, Int.negSucc_eq] at hlength
    omega
  have hdrop : d.digitChars.drop (place + 1) ≠ [] := by
    intro hnil
    have hle := List.drop_eq_nil_iff.mp hnil
    omega
  have hall := d.allDigits_digitChars
  obtain ⟨c, others, hcons, -⟩ := d.exists_digitChars_eq_cons
  refine ⟨⟨by simp [hcons], hall.take _, hall.drop _⟩, ?_, ?_, .inl hdrop⟩
  · unfold chars
    dsimp only
    rw [pointed_of_ne_nil hdrop]
    simp [exponent]
  · have hscale : (0 : Int) - (d.digitChars.drop (place + 1)).length = d.exponent := by
      rw [List.length_drop]
      omega
    unfold decimal
    rw [List.take_append_drop, d.ofDigitChars_digitChars]
    dsimp only [Option.getD_none]
    rw [hscale]

theorem exists_spells_positional
    (hplace : Decimal.leastPlace ≤ d.pointPlace ∧ d.pointPlace ≤ Decimal.greatestPlace) :
    ∃ t, Spells t d.positional d.spelled := by
  unfold Decimal.spelled
  rw [if_pos hplace]
  cases hexponent : d.exponent with
  | ofNat zeros => exact ⟨_, spells_whole hexponent⟩
  | negSucc n =>
      unfold Decimal.positional
      rw [hexponent]
      cases hpoint : d.pointPlace with
      | ofNat place =>
          cases place with
          | zero => exact ⟨_, spells_fraction 0 hpoint⟩
          | succ place => exact ⟨_, spells_mixed hexponent hpoint⟩
      | negSucc zeros => exact ⟨_, spells_fraction (zeros + 1) hpoint⟩

end positional

theorem exists_spells_scientific (d : Decimal) : ∃ t, Spells t d.scientific d := by
  have hall := d.allDigits_digitChars
  have hvalue := d.ofDigitChars_digitChars
  have hpoint : d.pointPlace = d.digitChars.length + d.exponent := rfl
  obtain ⟨first, others, hcons, -⟩ := d.exists_digitChars_eq_cons
  unfold Decimal.scientific
  rw [hcons] at hall hvalue hpoint ⊢
  refine ⟨⟨[first], others, some (d.pointPlace - 1)⟩,
    ⟨List.cons_ne_nil _ _, hall.take 1, hall.drop 1⟩, ?_, ?_, .inr (Option.some_ne_none _)⟩
  · cases others with
    | nil => rfl
    | cons second more => simp [chars, pointed, exponent]
  · have hscale : d.pointPlace - 1 - (others.length : Int) = d.exponent := by
      rw [List.length_cons] at hpoint
      omega
    unfold decimal
    rw [List.singleton_append, hvalue]
    dsimp only [Option.getD_some]
    rw [hscale]

/-- **The text of a decimal has the parts of what it spells.** -/
theorem exists_spells_text (d : Decimal) : ∃ t, Spells t d.text d.spelled := by
  unfold Decimal.text
  by_cases hplace : Decimal.leastPlace ≤ d.pointPlace ∧ d.pointPlace ≤ Decimal.greatestPlace
  · rw [if_pos hplace]
    exact exists_spells_positional hplace
  · have hspelled : d.spelled = d := if_neg hplace
    rw [if_neg hplace, hspelled]
    exact exists_spells_scientific d

end DecimalText

/-! ### Doubles -/

namespace Binary64

open DecimalText

theorem exists_spells_magnitudeText (x : Binary64) : ∃ t, Spells t x.magnitudeText x.spelled := by
  unfold magnitudeText spelled
  by_cases hx : x.isZero = true
  · rw [if_pos hx, if_pos hx]
    have hzero := Json.allDigits_replicate_zero 1
    exact ⟨⟨['0'], ['0'], none⟩, ⟨⟨List.cons_ne_nil _ _, hzero, hzero⟩, rfl, rfl,
      .inl (List.cons_ne_nil _ _)⟩⟩
  · rw [if_neg hx, if_neg hx]
    exact exists_spells_text x.shortest

theorem IsNear.abs_eq {x y : Binary64} {d : Decimal} (hx : x.IsNear d) (hy : y.IsNear d) :
    x.abs = y.abs := by
  unfold IsNear at hx hy
  cases hexponent : d.exponent with
  | ofNat k =>
      rw [hexponent] at hx hy
      have hround := ofQuotient?_of_near Nat.one_pos hx false
      rw [ofQuotient?_of_near Nat.one_pos hy false] at hround
      exact (Option.some.inj hround).symm
  | negSucc k =>
      rw [hexponent] at hx hy
      have hround := ofQuotient?_of_near (pow10_pos _) hx false
      rw [ofQuotient?_of_near (pow10_pos _) hy false] at hround
      exact (Option.some.inj hround).symm

theorem eq_of_abs_eq {x y : Binary64} (hnegative : x.negative = y.negative)
    (habs : x.abs = y.abs) : x = y := by
  obtain ⟨negative, mantissa, exponent, _, _, _⟩ := x
  obtain ⟨negative', mantissa', exponent', _, _, _⟩ := y
  cases hnegative
  cases habs
  rfl

/-- Doubles that spell the same decimal have the same magnitude. -/
theorem abs_eq_of_spelled_eq {x y : Binary64} (h : x.spelled = y.spelled) : x.abs = y.abs := by
  have hpos : ∀ {z : Binary64}, ¬ z.isZero = true → 0 < z.spelled.digits := by
    intro z hz
    have hspelled : z.spelled = z.shortest.spelled := if_neg hz
    rw [hspelled]
    exact Decimal.spelled_digits_pos (shortest_digits_pos (Bool.eq_false_iff.mpr hz))
  have hzero : ∀ {z : Binary64}, z.isZero = true → z.spelled.digits = 0 := by
    intro z hz
    have hspelled : z.spelled = ⟨0, -1⟩ := if_pos hz
    rw [hspelled]
  have hnear : ∀ {z : Binary64}, ¬ z.isZero = true → z.IsNear z.spelled := by
    intro z hz
    have hspelled : z.spelled = z.shortest.spelled := if_neg hz
    rw [hspelled]
    exact (isNear_shortest (Bool.eq_false_iff.mpr hz)).spelled
  by_cases hx : x.isZero = true <;> by_cases hy : y.isZero = true
  · rw [abs_of_isZero hx, abs_of_isZero hy]
  · have hdigits := hpos hy
    rw [← h, hzero hx] at hdigits
    cases hdigits
  · have hdigits := hpos hx
    rw [h, hzero hy] at hdigits
    cases hdigits
  · exact (hnear hx).abs_eq (h ▸ hnear hy)

end Binary64

/-! ### Numbers -/

/-- A character that the text of a number can have. -/
def Json.isNumberChar (c : Char) : Bool :=
  isDigit c || c == '-' || c == '+' || c == '.' || c == 'e'

namespace DecimalText

theorem Proper.exists_chars_eq_cons {t : DecimalText} (ht : t.Proper) :
    ∃ d more, t.chars = d :: more ∧ Json.isDigit d = true := by
  obtain ⟨d, others, hcons⟩ := List.exists_cons_of_ne_nil ht.whole_ne_nil
  refine ⟨d, others ++ (pointed t.fraction ++ exponent t.power), ?_, ht.whole d (by simp [hcons])⟩
  rw [chars, hcons]
  rfl

theorem isNumberChar_of_isDigit {digits : List Char} (h : Json.AllDigits digits) :
    ∀ c ∈ digits, Json.isNumberChar c = true := by
  intro c hc
  simp [Json.isNumberChar, h c hc]

theorem Proper.isNumberChar {t : DecimalText} (ht : t.Proper) :
    ∀ c ∈ t.chars, Json.isNumberChar c = true := by
  have hpointed : ∀ c ∈ pointed t.fraction, Json.isNumberChar c = true := by
    have hdigits := isNumberChar_of_isDigit ht.fraction
    cases hfraction : t.fraction with
    | nil => exact nofun
    | cons d fraction => exact List.forall_mem_cons.mpr ⟨rfl, hfraction ▸ hdigits⟩
  have hexponent : ∀ c ∈ exponent t.power, Json.isNumberChar c = true := by
    match t.power with
    | none => exact nofun
    | some (.ofNat n) =>
        have hdigits := isNumberChar_of_isDigit (Json.allDigits_toDigits n)
        exact List.forall_mem_cons.mpr ⟨rfl, List.forall_mem_cons.mpr ⟨rfl, hdigits⟩⟩
    | some (.negSucc n) =>
        have hdigits := isNumberChar_of_isDigit (Json.allDigits_toDigits (n + 1))
        exact List.forall_mem_cons.mpr ⟨rfl, List.forall_mem_cons.mpr ⟨rfl, hdigits⟩⟩
  exact List.forall_mem_append.mpr ⟨isNumberChar_of_isDigit ht.whole,
    List.forall_mem_append.mpr ⟨hpointed, hexponent⟩⟩

/-- The text with a sign in front if it is negative. -/
def signed (negative : Bool) (t : DecimalText) : List Char :=
  if negative then '-' :: t.chars else t.chars

theorem Proper.eq_of_signed_eq {t t' : DecimalText} {negative negative' : Bool} (ht : t.Proper)
    (ht' : t'.Proper) (h : t.signed negative = t'.signed negative') :
    negative = negative' ∧ t = t' := by
  have hsign : ∀ {t t' : DecimalText}, t'.Proper → '-' :: t.chars ≠ t'.chars := by
    intro t t' ht' heq
    obtain ⟨d, more, hcons, hd⟩ := ht'.exists_chars_eq_cons
    rw [hcons] at heq
    rw [← (List.cons.inj heq).1] at hd
    exact absurd hd (by decide)
  cases negative <;> cases negative'
  · exact ⟨rfl, ht.eq_of_chars_eq ht' h⟩
  · exact absurd h.symm (hsign ht)
  · exact absurd h (hsign ht')
  · exact ⟨rfl, ht.eq_of_chars_eq ht' (List.cons.inj h).2⟩

end DecimalText

namespace Json.Number

/-- The number is written with this sign and these parts. -/
inductive Written : Number → Bool → DecimalText → Prop
  | integer (value : Int) :
      Written (.integer value) (decide (value < 0)) ⟨Nat.toDigits 10 value.natAbs, [], none⟩
  | float {x : Binary64} {t : DecimalText} (h : t.Spells x.magnitudeText x.spelled) :
      Written (.float x) x.negative t

theorem exists_written (n : Number) : ∃ negative t, Written n negative t := by
  cases n with
  | integer value => exact ⟨_, _, .integer value⟩
  | float x =>
      obtain ⟨t, h⟩ := x.exists_spells_magnitudeText
      exact ⟨_, t, .float h⟩

section written

variable {n n' : Number} {negative : Bool} {t : DecimalText}

theorem Written.proper (h : Written n negative t) : t.Proper := by
  cases h with
  | integer value => exact ⟨Nat.toDigits_ne_nil, allDigits_toDigits _, nofun⟩
  | float h => exact h.proper

theorem Written.text_eq (h : Written n negative t) : n.text = t.signed negative := by
  cases h with
  | integer value =>
      cases value with
      | ofNat value => simp [text, integerText, DecimalText.signed, DecimalText.chars,
          DecimalText.pointed, DecimalText.exponent]
      | negSucc value => simp [text, integerText, DecimalText.signed, DecimalText.chars,
          DecimalText.pointed, DecimalText.exponent, Int.negSucc_lt_zero]
  | @float x _ h =>
      rw [text, x.text_eq, DecimalText.signed, h.chars_eq]

theorem Written.unique (h : Written n negative t) (h' : Written n' negative t) : n = n' := by
  generalize hnegative : negative = negative' at h'
  generalize ht : t = t' at h'
  cases h with
  | integer value =>
      cases h' with
      | integer value' =>
          have habs := toDigits_injective (by decide) (by decide) (DecimalText.mk.inj ht).1
          have hsign := decide_eq_decide.mp hnegative
          have heq : value = value' := by omega
          rw [heq]
      | float hspells =>
          rw [← ht] at hspells
          exact absurd hspells.fractional (by simp)
  | float hspells =>
      cases h' with
      | integer value =>
          rw [ht] at hspells
          exact absurd hspells.fractional (by simp)
      | float hspells' =>
          rw [← ht] at hspells'
          have habs := Binary64.abs_eq_of_spelled_eq
            (hspells.decimal_eq.symm.trans hspells'.decimal_eq)
          rw [Binary64.eq_of_abs_eq hnegative habs]

/-- **Different numbers have different texts.** -/
theorem text_injective : Function.Injective text := by
  intro m n h
  obtain ⟨negative, t, hm⟩ := m.exists_written
  obtain ⟨negative', t', hn⟩ := n.exists_written
  rw [hm.text_eq, hn.text_eq] at h
  obtain ⟨rfl, rfl⟩ := hm.proper.eq_of_signed_eq hn.proper h
  exact hm.unique hn

theorem isNumberChar_of_mem_text (n : Number) : ∀ c ∈ n.text, isNumberChar c = true := by
  obtain ⟨negative, t, h⟩ := n.exists_written
  rw [h.text_eq, DecimalText.signed]
  split
  · exact List.forall_mem_cons.mpr ⟨rfl, h.proper.isNumberChar⟩
  · exact h.proper.isNumberChar

/-- The text of a number starts with a digit, or with one behind a sign. -/
theorem exists_text_eq_cons (n : Number) : ∃ d more, isDigit d = true
    ∧ (n.text = d :: more ∨ n.text = '-' :: d :: more) := by
  obtain ⟨negative, t, h⟩ := n.exists_written
  obtain ⟨d, more, hcons, hd⟩ := h.proper.exists_chars_eq_cons
  refine ⟨d, more, hd, ?_⟩
  rw [h.text_eq, DecimalText.signed, hcons]
  split
  · exact .inr rfl
  · exact .inl rfl

end written

end Json.Number

end StrategyDoc
