import StrategyDoc.Policy.Resolution
import StrategyDoc.Proofs.Numerals
import StrategyDoc.Proofs.Reading

/-! # The policy of some settings

A setting that has a value is never passed over.  Either the policy holds what the value
spells, or there is no policy, and the failure names a setting whose value spells nothing
that is allowed there (`ofSettings_heeds`).  The default stands for a key that the settings
do not have, and also for one that they have without any value. -/

namespace StrategyDoc

/-! ### Numbers -/

namespace Text

/-- The text has decimal digits, perhaps after a plus sign, for the number, which fits into
64 bits. -/
def SpellsNumber (text : List Char) (n : Nat) : Prop :=
  ∃ digits, (text = digits ∨ text = '+' :: digits) ∧ digits ≠ [] ∧
    (∀ c ∈ digits, c.isDigit = true) ∧ Nat.ofDigitChars 10 digits 0 = n ∧ n ≤ maxUnsigned

theorem readDigits_eq_ok_iff (digits : List Char) {value n : Nat} (h : value ≤ maxUnsigned) :
    readDigits value digits = .ok n ↔
      (∀ c ∈ digits, c.isDigit = true) ∧ Nat.ofDigitChars 10 digits value = n ∧
        n ≤ maxUnsigned := by
  induction digits generalizing value with
  | nil =>
    rw [readDigits, Nat.ofDigitChars_nil, Except.ok.injEq]
    constructor
    · rintro rfl
      exact ⟨nofun, rfl, h⟩
    · exact fun ⟨_, hvalue, _⟩ => hvalue
  | cons c rest ih =>
    have hnext := Json.le_ofDigitChars (10 * value + (c.toNat - '0'.toNat)) rest
    rw [readDigits, Nat.ofDigitChars_cons, List.forall_mem_cons, Nat.mul_comm value 10]
    by_cases hdigit : c.isDigit = true
    · rw [if_pos hdigit]
      dsimp only
      split
      case isTrue hle => rw [ih hle]; simp [hdigit]
      case isFalse hgt =>
        refine ⟨nofun, ?_⟩
        rintro ⟨_, rfl, hn⟩
        omega
    · rw [if_neg hdigit]
      exact ⟨nofun, fun h => absurd h.1.1 hdigit⟩

theorem readUnsigned_eq_ok_iff (text : List Char) (n : Nat) :
    readUnsigned text = .ok n ↔ SpellsNumber text n := by
  have hread := fun digits => readDigits_eq_ok_iff digits (n := n) (Nat.zero_le maxUnsigned)
  unfold readUnsigned
  split
  case h_1 =>
    refine ⟨nofun, ?_⟩
    rintro ⟨digits, rfl | hplus, hne, -⟩
    · exact absurd rfl hne
    · nomatch hplus
  case h_2 =>
    refine ⟨nofun, ?_⟩
    rintro ⟨digits, rfl | hplus, hne, hdigits, -⟩
    · exact absurd (hdigits '+' (List.mem_singleton_self _)) (by decide)
    · exact absurd (List.cons.inj hplus).2.symm hne
  case h_3 rest hrest =>
    rw [hread]
    constructor
    · exact fun ⟨hdigits, hn⟩ => ⟨rest, .inr rfl, hrest, hdigits, hn⟩
    · rintro ⟨digits, rfl | hplus, -, hdigits, hn⟩
      · exact absurd (hdigits '+' List.mem_cons_self) (by decide)
      · rw [(List.cons.inj hplus).2]
        exact ⟨hdigits, hn⟩
  case h_4 hempty _ hplus =>
    rw [hread]
    constructor
    · exact fun ⟨hdigits, hn⟩ => ⟨text, .inl rfl, hempty, hdigits, hn⟩
    · rintro ⟨digits, rfl | rfl, -, hdigits, hn⟩
      · exact ⟨hdigits, hn⟩
      · exact absurd rfl (hplus digits)

end Text

/-! ### What a value spells -/

namespace Settings

/-- The words for a truth value. -/
def words : Bool → List String
  | true => ["true", "yes", "on", "1"]
  | false => ["false", "no", "off", "0"]

/-- The text is a word for the truth value, in any case and with blanks around it. -/
def SpellsBool (text : String) (b : Bool) : Prop := Ini.name text.toList ∈ words b

/-- The text spells a nesting limit. -/
def SpellsLimit (text : String) (n : Nat) : Prop := Text.SpellsNumber text.toList n ∧ 1 ≤ n

theorem readBool?_eq_some_iff (text : String) (b : Bool) :
    readBool? text = some b ↔ SpellsBool text b := by
  unfold readBool? SpellsBool
  rw [← Ini.name]
  generalize Ini.name text.toList = word
  split <;> cases b <;> simp_all [words]

theorem SpellsBool.unique {text : String} {b c : Bool} (hb : SpellsBool text b)
    (hc : SpellsBool text c) : b = c := by
  rw [← readBool?_eq_some_iff] at hb hc
  exact Option.some.inj (hb.symm.trans hc)

theorem SpellsLimit.unique {text : String} {m n : Nat} (hm : SpellsLimit text m)
    (hn : SpellsLimit text n) : m = n := by
  have hreadM := (Text.readUnsigned_eq_ok_iff text.toList m).mpr hm.1
  have hreadN := (Text.readUnsigned_eq_ok_iff text.toList n).mpr hn.1
  exact Except.ok.inj (hreadM.symm.trans hreadN)

end Settings

/-! ### What a source answers -/

/-- An answer about a value of settings: there is none, it is what the value spells, or it
says why the value cannot be used. -/
inductive Answers {α : Type} (spells : String → α → Prop) :
    Option String → Except String (Option α) → Prop
  | absent : Answers spells none (.ok none)
  | spelled {text x} : spells text x → Answers spells (some text) (.ok (some x))
  | refused {text reason} : (∀ x, ¬spells text x) → Answers spells (some text) (.error reason)

namespace Ini

variable (ini : Ini) (heading key : String)

theorem answers_bool? :
    Answers Settings.SpellsBool (ini.value? heading key) (ini.bool? heading key) := by
  unfold bool?
  cases ini.value? heading key with
  | none => exact .absent
  | some text =>
    have hspells := Settings.readBool?_eq_some_iff text
    dsimp only
    cases hread : Settings.readBool? text with
    | some b => exact .spelled ((hspells b).mp hread)
    | none => exact .refused fun b hb => nomatch hread.symm.trans ((hspells b).mpr hb)

theorem answers_limit :
    Answers Settings.SpellsLimit (ini.value? heading key)
      (ini.unsigned? heading key >>= Policy.checkLimit) := by
  unfold unsigned?
  cases ini.value? heading key with
  | none => exact .absent
  | some text =>
    have hspells := Text.readUnsigned_eq_ok_iff text.toList
    dsimp only
    cases hread : Text.readUnsigned text.toList with
    | error fault =>
      exact .refused fun n hn => nomatch hread.symm.trans ((hspells n).mpr hn.1)
    | ok n =>
      cases n with
      | zero =>
        refine .refused fun n hn => ?_
        have hzero := Except.ok.inj (hread.symm.trans ((hspells n).mpr hn.1))
        exact absurd hn.2 (by omega)
      | succ n => exact .spelled ⟨(hspells (n + 1)).mp hread, by omega⟩

end Ini

/-! ### What a policy holds -/

namespace Policy

/-- What a policy holds for a key: what the value of its setting spells, or the default if
there is no such setting or no value in it. -/
def Heeds {α : Type} (spells : String → α → Prop) (default : α) : Option Setting → α → Prop
  | some ⟨_, _, some text⟩, held => spells text held
  | some ⟨_, _, none⟩, held => held = default
  | none, held => held = default

/-- The setting has a value that spells nothing. -/
def Unusable {α : Type} (spells : String → α → Prop) (setting : Option Setting) : Prop :=
  ∃ s text, setting = some s ∧ s.value = some text ∧ ∀ x, ¬spells text x

section

variable {α : Type} {spells : String → α → Prop} {found : Option Setting}
  {answer : Except String (Option α)}

theorem heeds_of_answers (h : Answers spells (found.bind (·.value)) answer) (key : String)
    (default : α) :
    (∃ x, setting key answer = .ok x ∧ Heeds spells default found (x.getD default)) ∨
      (∃ reason, setting key answer = .error (.invalidSetting heading key reason) ∧
        Unusable spells found) := by
  cases found with
  | none =>
    cases h with
    | absent => exact .inl ⟨none, rfl, rfl⟩
  | some s =>
    obtain ⟨_, _, value⟩ := s
    cases h with
    | absent => exact .inl ⟨none, rfl, rfl⟩
    | spelled hspells => exact .inl ⟨_, rfl, hspells⟩
    | refused hnone => exact .inr ⟨_, rfl, _, _, rfl, rfl, hnone⟩

end

/-- **No setting is passed over.**  Either the policy holds what the value of each key spells, and
the default for a key that is absent or has no value, or the failure names a key whose value
spells nothing of its kind. -/
theorem ofSettings_heeds (ini : Ini) :
    (∃ policy, ofSettings ini.toSettings = .ok policy ∧
      Heeds Settings.SpellsBool default.strict (ini.find? heading "strict") policy.strict ∧
      Heeds Settings.SpellsBool default.allowEmptyBranches
        (ini.find? heading "allow_empty_branches") policy.allowEmptyBranches ∧
      Heeds Settings.SpellsLimit default.maxDepth (ini.find? heading "max_depth")
        policy.maxDepth) ∨
    (∃ key reason, ofSettings ini.toSettings = .error (.invalidSetting heading key reason) ∧
      (key ∈ ["strict", "allow_empty_branches"] ∧
          Unusable Settings.SpellsBool (ini.find? heading key) ∨
        key = "max_depth" ∧ Unusable Settings.SpellsLimit (ini.find? heading key))) := by
  have hpolicy : ofSettings ini.toSettings = do
      let strict ← setting "strict" (ini.bool? heading "strict")
      let allowEmptyBranches ←
        setting "allow_empty_branches" (ini.bool? heading "allow_empty_branches")
      let maxDepth ← setting "max_depth" (ini.unsigned? heading "max_depth" >>= checkLimit)
      return ⟨strict.getD default.strict, maxDepth.getD default.maxDepth,
        allowEmptyBranches.getD default.allowEmptyBranches⟩ := rfl
  rw [hpolicy]
  obtain ⟨strict, hstrict, heedsStrict⟩ | ⟨reason, hstrict, hbad⟩ :=
    heeds_of_answers (ini.answers_bool? heading "strict") "strict" default.strict
  case inr =>
    refine .inr ⟨"strict", reason, ?_, .inl ⟨by decide, hbad⟩⟩
    rw [hstrict]
    rfl
  obtain ⟨allowed, hallowed, heedsAllowed⟩ | ⟨reason, hallowed, hbad⟩ :=
    heeds_of_answers (ini.answers_bool? heading "allow_empty_branches") "allow_empty_branches"
      default.allowEmptyBranches
  case inr =>
    refine .inr ⟨"allow_empty_branches", reason, ?_, .inl ⟨by decide, hbad⟩⟩
    rw [hstrict, hallowed]
    rfl
  obtain ⟨limit, hlimit, heedsLimit⟩ | ⟨reason, hlimit, hbad⟩ :=
    heeds_of_answers (ini.answers_limit heading "max_depth") "max_depth" default.maxDepth
  case inr =>
    refine .inr ⟨"max_depth", reason, ?_, .inr ⟨rfl, hbad⟩⟩
    rw [hstrict, hallowed, hlimit]
    rfl
  refine .inl ⟨⟨strict.getD default.strict, limit.getD default.maxDepth,
    allowed.getD default.allowEmptyBranches⟩, ?_, heedsStrict, heedsAllowed, heedsLimit⟩
  rw [hstrict, hallowed, hlimit]
  rfl

/-- A text of settings in which a key has no value. -/
def bareStrict : String := "[validator]\nstrict\n"

/-- A key without a value is there and spells nothing, and yet there is a policy. -/
theorem bareStrict_passedOver :
    ¬∀ ini setting, Ini.read? bareStrict = .ok ini → ini.find? heading "strict" = some setting →
      (∃ key reason, ofSettings ini.toSettings = .error (.invalidSetting heading key reason)) ∨
      (∃ policy text, ofSettings ini.toSettings = .ok policy ∧ setting.value = some text ∧
        Settings.SpellsBool text policy.strict) := by
  intro claim
  have hread : Ini.read? bareStrict = .ok ⟨[⟨"validator", "strict", none⟩]⟩ := by rfl
  have hpolicy : ofSettings (Ini.toSettings ⟨[⟨"validator", "strict", none⟩]⟩) = .ok default := by
    rfl
  obtain ⟨key, reason, hfailed⟩ | ⟨policy, text, -, hvalue, -⟩ :=
    claim _ ⟨"validator", "strict", none⟩ hread rfl
  · rw [hpolicy] at hfailed
    nomatch hfailed
  · nomatch hvalue

end Policy

end StrategyDoc
