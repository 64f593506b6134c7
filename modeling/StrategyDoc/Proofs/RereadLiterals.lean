import StrategyDoc.Proofs.Literals
import StrategyDoc.Proofs.NumberText
import StrategyDoc.Proofs.Rereading

/-! # Literals that are written and read again

A number that was read from a text is found again in its own text if it is an integer, since
the digits of an integer are all collected (`Json.keptByReading_denoted`), and otherwise exactly
if it is a double that survives (`Json.parse?_compact_number_iff`).  A strategy is found again
in its own text if all its doubles survive (`Strategy.exists_reread`), and only then, since no
other doubles make the same strategy (`Strategy.survives_of_reread`).

Not every double does.  Reading multiplies or divides by a power of ten after the digits have
been rounded, so the seventeen digits of a double may be read as one of its neighbours
(`Binary64.not_survives_wide`). -/

namespace StrategyDoc

namespace Json

/-! ### Integers that are read -/

/-- An integer that a text can denote, or any double. -/
def Number.Denoted : Number → Prop
  | .integer value => InRange value
  | .float _ => True

/-- If a number is read at all, then it is one that a text can denote. -/
def ReadsDenoted (read : Except Fault (Number × List Char)) : Prop :=
  ∀ n rest, read = .ok (n, rest) → n.Denoted

section denoted

variable {negative : Bool} {significand : Nat} {exponent : Int} {text : List Char}

theorem readsDenoted_error (fault : Fault) : ReadsDenoted (.error fault) := nofun

theorem readsDenoted_ok {n : Number} {rest : List Char} (h : n.Denoted) :
    ReadsDenoted (.ok (n, rest)) := by
  intro n' rest' heq
  cases heq
  exact h

theorem readsDenoted_finishFloat :
    ReadsDenoted (finishFloat negative significand exponent text) := by
  intro n rest h
  obtain ⟨hn, -⟩ := (yields_finishFloat negative significand exponent text).eq_ok_iff.mp h
  obtain ⟨x, -, rfl⟩ := Option.map_eq_some_iff.mp hn
  trivial

theorem readsDenoted_finishExponentDigits {down : Bool} :
    ReadsDenoted (finishExponentDigits negative significand exponent down text) := by
  unfold finishExponentDigits
  dsimp only
  split
  · exact readsDenoted_error _
  · exact readsDenoted_error _
  · split
    · exact readsDenoted_finishFloat
    · split
      · exact readsDenoted_error _
      · exact readsDenoted_ok trivial

theorem readsDenoted_finishExponent :
    ReadsDenoted (finishExponent negative significand exponent text) := by
  unfold finishExponent
  split <;> exact readsDenoted_finishExponentDigits

theorem readsDenoted_finishScaled :
    ReadsDenoted (finishScaled negative significand exponent text) := by
  unfold finishScaled
  split
  · exact readsDenoted_finishExponent
  · exact readsDenoted_finishExponent
  · exact readsDenoted_finishFloat

theorem readsDenoted_finishFraction :
    ReadsDenoted (finishFraction negative significand exponent text) := by
  unfold finishFraction
  dsimp only
  split
  · exact readsDenoted_error _
  · exact readsDenoted_error _
  · exact readsDenoted_finishScaled

theorem denoted_finishInteger (hmax : significand ≤ maxSignificand) :
    (finishInteger negative significand).Denoted := by
  unfold maxSignificand at hmax
  unfold finishInteger
  split
  · split
    · trivial
    · next h =>
        obtain ⟨-, hle⟩ := not_or.mp h
        unfold Number.minInteger at hle
        unfold Number.Denoted Number.InRange Number.minInteger Number.maxInteger
        omega
  · unfold Number.Denoted Number.InRange Number.minInteger Number.maxInteger
    omega

theorem readsDenoted_finishNumber {dropped : List Char} (hmax : significand ≤ maxSignificand) :
    ReadsDenoted (finishNumber negative significand dropped text) := by
  unfold finishNumber
  split
  · exact readsDenoted_finishFraction
  · exact readsDenoted_finishScaled
  · exact readsDenoted_finishScaled
  · split
    · exact readsDenoted_ok (denoted_finishInteger hmax)
    · exact readsDenoted_finishFloat

theorem collect_fst_le {bound value : Nat} (h : value ≤ bound) (digits : List Char) :
    (collect bound value digits).1 ≤ bound := by
  induction digits generalizing value with
  | nil => exact h
  | cons d rest ih =>
      unfold collect
      dsimp only
      split
      · next hnext => exact ih hnext
      · exact h

theorem readsDenoted_readNumber : ReadsDenoted (readNumber negative text) := by
  unfold readNumber
  split
  · exact readsDenoted_error _
  · split
    · exact readsDenoted_finishNumber (Nat.zero_le _)
    · split
      · exact readsDenoted_error _
      · exact readsDenoted_finishNumber (Nat.zero_le _)
  · dsimp only
    split
    · exact readsDenoted_error _
    · exact readsDenoted_finishNumber (collect_fst_le (Nat.zero_le _) _)

end denoted

theorem keptByReading_denoted : KeptByReading (AllNumbers Number.Denoted) where
  null := trivial
  bool _ := trivial
  number h := readsDenoted_readNumber _ _ h
  string _ := trivial
  array h := allNumbersOfItems_iff.mpr h
  object h := allNumbersOfMembers_iff.mpr fun m hm => h m (mem_of_mem_ofEntries hm)

/-! ### Numbers that survive -/

/-- An integer, or a double that survives. -/
def Number.Survives : Number → Prop
  | .integer _ => True
  | .float x => x.Survives

/-- What the text of the number is read as. -/
def Number.reread : Number → Option Number
  | .integer value => some (.integer value)
  | .float x => x.reread.map .float

theorem Number.Denoted.readAs {n : Number} (h : n.Denoted) : n.ReadAs n.reread := by
  cases n with
  | integer value => exact readsBack_integer h
  | float x => exact ⟨x.numberStarts_text, fun _ => yields_readSigned_text x⟩

theorem Number.reread_eq_some_iff {n : Number} : n.reread = some n ↔ n.Survives := by
  cases n with
  | integer value => exact iff_of_true rfl trivial
  | float x =>
      have hx : x.reread = some x ↔ x.Survives := Binary64.reread_eq_some_iff
      simp [Number.reread, Number.Survives, hx]

theorem Number.Denoted.readsBack {n : Number} (h : n.Denoted) (hn : n.Survives) :
    n.ReadsBack := by
  have hread := h.readAs
  rwa [reread_eq_some_iff.mpr hn] at hread

theorem parse?_compact_number_iff {n : Number} (h : n.Denoted) :
    parse? (number n).compact = .ok (.number n) ↔ n.Survives := by
  have hnumber : (number n).AllNumbers fun n => n.ReadAs n.reread := h.readAs
  have hread : parse? (number n).compact = .ok (.number n)
      ↔ n.reread.map Json.number = some (.number n) :=
    parse?_write_eq_ok_iff Layout.blank_compact hnumber
  rw [hread, ← Number.reread_eq_some_iff]
  cases n.reread with
  | none => exact ⟨nofun, nofun⟩
  | some m => simp

end Json

/-! ### Strategies that survive -/

section strategies

variable {policy : Policy} {document : Json} {s : Strategy}
  (hdenoted : document.AllNumbers Json.Number.Denoted)
  (hread : Strategy.ofJson? policy document = .ok s)

include hdenoted hread

/-- A strategy with literals that survive is found again in its own text. -/
theorem Strategy.exists_reread (hsurvives : s.AllLiterals Json.Number.Survives) :
    ∃ reread, Json.parse? s.toJson.compact = .ok reread ∧ ofJson? policy reread = .ok s := by
  obtain ⟨hdocument, hwithin⟩ := ofJson?_eq_ok_iff.mp hread
  have hliterals := hdocument.allLiterals hdenoted
  have hnumbers : s.toJson.AllNumbers Json.Number.ReadsBack :=
    (allNumbers_toJson hliterals).combine (fun _ => Json.Number.Denoted.readsBack)
      (allNumbers_toJson hsurvives)
  exact ⟨s.toJson.sort, Json.parse?_write Json.Layout.blank_compact hnumbers 0,
    ofJson?_eq_ok_iff.mpr ⟨hdocument.conformant.represents, hwithin⟩⟩

/-- A strategy that is found again in its own text has literals that survive. -/
theorem Strategy.survives_of_reread {reread : Json}
    (hparse : Json.parse? s.toJson.compact = .ok reread)
    (hsame : ofJson? policy reread = .ok s) : s.AllLiterals Json.Number.Survives := by
  have hliterals := (ofJson?_eq_ok_iff.mp hread).1.allLiterals hdenoted
  have hnumbers : s.toJson.AllNumbers fun n => n.ReadAs n.reread :=
    (allNumbers_toJson hliterals).mono fun _ hn => hn.readAs
  have hreplaced := (Json.parse?_write_eq_ok_iff Json.Layout.blank_compact hnumbers).mp hparse
  exact (ofJson?_eq_ok_iff.mp hsame).1.allLiterals_of_reread
    (fun _ => Json.Number.reread_eq_some_iff.mp) hreplaced

end strategies

/-- **Literals that are written and read again.**  A number that is read is found again in its
own text exactly if it survives, and a strategy that is read from a document exactly if all of
its numbers do.  All integers survive, and a double does if the digits that it is written with
and its power of ten are doubles themselves. -/
theorem reread_literals (policy : Policy) (text : String) :
    (∀ n, Json.parse? text = .ok (.number n) →
      (Json.parse? (Expression.number n).toJson.compact = .ok (.number n) ↔ n.Survives))
    ∧ (∀ document s, Json.parse? text = .ok document → Strategy.ofJson? policy document = .ok s →
      ((∃ reread, Json.parse? s.toJson.compact = .ok reread
          ∧ Strategy.ofJson? policy reread = .ok s)
        ↔ s.AllLiterals Json.Number.Survives))
    ∧ (∀ value, (Json.Number.integer value).Survives)
    ∧ ∀ x : Binary64, x.spelled.digits ≤ pow2 53 → x.spelled.exponent.natAbs ≤ 22 →
      (Json.Number.float x).Survives := by
  refine ⟨fun n hparse => ?_, fun document s hparse hread => ?_, fun _ => trivial,
    fun x => Binary64.survives_of_exact⟩
  · have hdenoted : (Json.number n).AllNumbers Json.Number.Denoted :=
      Json.keptByReading_denoted.of_parse? hparse
    exact Json.parse?_compact_number_iff hdenoted
  · have hdenoted : document.AllNumbers Json.Number.Denoted :=
      Json.keptByReading_denoted.of_parse? hparse
    constructor
    · rintro ⟨reread, hreparse, hsame⟩
      exact Strategy.survives_of_reread hdenoted hread hreparse hsame
    · exact Strategy.exists_reread hdenoted hread

/-- One half. -/
def Binary64.half : Binary64 := ⟨false, pow2 52, 1021, by decide, .inr (by decide), by decide⟩

/-- A strategy whose condition is one half. -/
def Strategy.halved : Strategy := ⟨"halved", "nobody", ⟨.number (.float .half), [], none⟩⟩

theorem Binary64.exact_half : Binary64.half.spelled.digits ≤ pow2 53
    ∧ Binary64.half.spelled.exponent.natAbs ≤ 22 := by
  decide +kernel

theorem Strategy.parse?_halved : Json.parse? halved.toJson.compact = .ok halved.toJson.sort := by
  have hsurvives : Json.Number.Survives (.float .half) :=
    Binary64.survives_of_exact Binary64.exact_half.1 Binary64.exact_half.2
  have hhalf : Json.Number.ReadsBack (.float .half) :=
    Json.Number.Denoted.readsBack trivial hsurvives
  have hliterals : halved.AllLiterals Json.Number.ReadsBack := ⟨hhalf, trivial⟩
  exact Json.parse?_write Json.Layout.blank_compact (allNumbers_toJson hliterals) 0

theorem Strategy.ofJson?_halved :
    ofJson? ⟨false, 2, true⟩ halved.toJson.sort = .ok halved := by
  have hconformant : halved.Conformant := .conditional (.number _) nofun nofun
  exact ofJson?_eq_ok_iff.mpr ⟨hconformant.represents, by decide, nofun⟩

/-- One half survives, and so does the strategy with it. -/
theorem reread_literals_halved :
    Json.parse? Strategy.halved.toJson.compact = .ok Strategy.halved.toJson.sort
    ∧ Strategy.ofJson? ⟨false, 2, true⟩ Strategy.halved.toJson.sort = .ok Strategy.halved
    ∧ Strategy.halved.AllLiterals Json.Number.Survives
    ∧ ∃ reread, Json.parse? Strategy.halved.toJson.compact = .ok reread
        ∧ Strategy.ofJson? ⟨false, 2, true⟩ reread = .ok Strategy.halved := by
  obtain ⟨-, hreread, -, hexact⟩ :=
    reread_literals ⟨false, 2, true⟩ Strategy.halved.toJson.compact
  have hhalf := hexact .half Binary64.exact_half.1 Binary64.exact_half.2
  have hsurvives : Strategy.halved.AllLiterals Json.Number.Survives := ⟨hhalf, trivial⟩
  exact ⟨Strategy.parse?_halved, Strategy.ofJson?_halved, hsurvives,
    (hreread _ _ Strategy.parse?_halved Strategy.ofJson?_halved).mpr hsurvives⟩

/-! ### A literal that does not survive -/

/-- The double `8000000000000001`. -/
def Binary64.wide : Binary64 :=
  ⟨false, 8000000000000001, 1074, by decide, .inr (by decide), by decide⟩

/-- With a zero behind the point there are seventeen digits, which are rounded before they are
divided by ten. -/
theorem Binary64.not_survives_wide : ¬ wide.Survives := by
  decide +kernel

/-- The double is read from sixteen digits and the power `10 ^ 0`, and not from its own text. -/
theorem Json.not_reread_wide : parse? "8000000000000001e+0" = .ok (.number (.float .wide))
    ∧ parse? (Expression.number (.float .wide)).toJson.compact ≠ .ok (.number (.float .wide)) := by
  constructor
  · have htext : "8000000000000001e+0".toList
        = Nat.toDigits 10 8000000000000001 ++ 'e' :: (Decimal.exponentChars 0 ++ []) := by
      decide +kernel
    have hstarts : NumberStarts "8000000000000001e+0".toList := ⟨'8', _, rfl, .inr rfl⟩
    have hdecimal : Binary64.ofDecimal? 8000000000000001 0 = some .wide := by decide +kernel
    have hfinish : readNumber false
        (Nat.toDigits 10 8000000000000001 ++ 'e' :: (Decimal.exponentChars 0 ++ [])) = _ :=
      (readNumber_toDigits (by decide) (noDigitFollows_cons.mpr (by decide))).trans
        (finishNumber_exponent (by decide) numberEnds_nil.noDigitFollows)
    have hread := yields_finishFloat false 8000000000000001 0 []
    rw [hdecimal, ← hfinish, ← htext] at hread
    have hvalue : Yields (readValue "8000000000000001e+0".toList)
        (some (.number (.float .wide))) [] := readValueIn_number hstarts hread
    exact (parse?_eq_ok_iff_of_yields hvalue rfl).mpr rfl
  · have hdenoted : Number.Denoted (.float .wide) := trivial
    exact fun h => Binary64.not_survives_wide ((parse?_compact_number_iff hdenoted).mp h)

end StrategyDoc
