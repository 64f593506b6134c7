import StrategyDoc.Proofs.PolicySettings
import StrategyDoc.Proofs.SettingLines

/-! # A policy that is written down

Someone writes a policy as a text of settings (`Policy.WrittenAs`): a heading and below it one
line for each setting, in any order, with blanks wherever they do no harm, truth values in any
case, and the nesting limit in decimal.  Every policy can be written so
(`Policy.exists_writtenAs`).  What is read back is the policy that was meant, unless the limit is
zero or does not fit into 64 bits.  Then there is no policy, and the failure names the limit
(`Policy.read_writtenAs`). -/

namespace StrategyDoc

/-! ### Numerals of any size -/

namespace Text

/-- The text has decimal digits, perhaps after a plus sign, for the number. -/
def IsNumeral (text : List Char) (n : Nat) : Prop :=
  ∃ digits, (text = digits ∨ text = '+' :: digits) ∧ digits ≠ [] ∧
    (∀ c ∈ digits, c.isDigit = true) ∧ Nat.ofDigitChars 10 digits 0 = n

theorem isNamePart_of_isDigit {c : Char} (h : c.isDigit = true) : isNamePart c = true := by
  have halphanum : c.isAlphanum = (c.isAlpha || c.isDigit) := rfl
  simp [isNamePart, halphanum, h]

theorem readDigits_of_gt {value : Nat} {digits : List Char}
    (hdigits : ∀ c ∈ digits, c.isDigit = true) (hvalue : value ≤ maxUnsigned)
    (hgt : maxUnsigned < Nat.ofDigitChars 10 digits value) :
    readDigits value digits = .error .tooLarge := by
  induction digits generalizing value with
  | nil => exact absurd hvalue (Nat.not_le_of_gt hgt)
  | cons c rest ih =>
    obtain ⟨hc, hrest⟩ := List.forall_mem_cons.mp hdigits
    rw [Nat.ofDigitChars_cons, Nat.mul_comm 10 value] at hgt
    rw [readDigits, if_pos hc]
    dsimp only
    split
    case isTrue hle => exact ih hrest hle hgt
    case isFalse => rfl

namespace IsNumeral

variable {text : List Char} {n : Nat}

theorem readUnsigned_eq (h : IsNumeral text n) :
    ∃ digits, readUnsigned text = readDigits 0 digits ∧ (∀ c ∈ digits, c.isDigit = true) ∧
      Nat.ofDigitChars 10 digits 0 = n := by
  obtain ⟨digits, htext, hne, hdigits, hn⟩ := h
  refine ⟨digits, ?_, hdigits, hn⟩
  obtain ⟨first, rest, rfl⟩ := List.exists_cons_of_ne_nil hne
  have hplus : first ≠ '+' := by
    rintro rfl
    exact absurd (hdigits '+' List.mem_cons_self) (by decide)
  rcases htext with rfl | rfl
  · unfold readUnsigned
    split
    case h_1 hnil => nomatch hnil
    case h_2 heq => exact absurd (List.cons.inj heq).1 hplus
    case h_3 heq => exact absurd (List.cons.inj heq).1 hplus
    case h_4 => rfl
  · rfl

theorem read (h : IsNumeral text n) :
    readUnsigned text = if n ≤ maxUnsigned then .ok n else .error .tooLarge := by
  obtain ⟨digits, hread, hdigits, rfl⟩ := h.readUnsigned_eq
  rw [hread]
  split
  case isTrue hle =>
    exact (readDigits_eq_ok_iff digits (Nat.zero_le maxUnsigned)).mpr ⟨hdigits, rfl, hle⟩
  case isFalse hgt => exact readDigits_of_gt hdigits (Nat.zero_le maxUnsigned) (by omega)

theorem isValue (h : IsNumeral text n) : Ini.IsValue text := by
  obtain ⟨digits, htext, hne, hdigits, -⟩ := h
  have hinert := fun c hc => inert_of_isNamePart (isNamePart_of_isDigit (hdigits c hc))
  have hdigitsValue : Ini.IsValue digits :=
    ⟨hne, fun c hc => (hinert c hc).1, fun c hc => (hinert c hc).2.1⟩
  rcases htext with rfl | rfl
  · exact hdigitsValue
  · refine ⟨nofun, ?_, ?_⟩
    · exact List.forall_mem_cons.mpr ⟨by decide, hdigitsValue.unbroken⟩
    · exact List.forall_mem_cons.mpr ⟨by decide, hdigitsValue.noComment⟩

end IsNumeral

end Text

/-! ### Truth values in words -/

namespace Settings

/-- The text is a word for the truth value, in any case. -/
def IsWord (b : Bool) (text : List Char) : Prop := ∃ word ∈ words b, Text.InAnyCase word text

theorem plain_of_mem_words {b : Bool} {word : String} (h : word ∈ words b) :
    Text.Plain word.toList ∧ word ≠ "" := by
  have hall : ∀ b, ∀ word ∈ words b, Text.Plain word.toList ∧ word ≠ "" := by
    decide +kernel
  exact hall b word h

namespace IsWord

variable {b : Bool} {text : List Char}

theorem readBool? (h : IsWord b text) : Settings.readBool? (String.ofList text) = some b := by
  obtain ⟨word, hmem, htext⟩ := h
  have hname : Ini.name ([] ++ text ++ []) = word :=
    Ini.name_of_inAnyCase (plain_of_mem_words hmem).1 nofun htext nofun
  rw [readBool?_eq_some_iff, SpellsBool, String.toList_ofList]
  rw [List.nil_append, List.append_nil] at hname
  rwa [hname]

theorem isValue (h : IsWord b text) : Ini.IsValue text := by
  obtain ⟨word, hmem, htext⟩ := h
  obtain ⟨hplain, hne⟩ := plain_of_mem_words hmem
  have hinert := fun c hc => Text.inert_of_isNamePart (htext.plain hplain c hc)
  exact ⟨htext.ne_nil hne, fun c hc => (hinert c hc).1, fun c hc => (hinert c hc).2.1⟩

end IsWord

end Settings

/-! ### Answers -/

namespace Ini

variable {ini : Ini} {heading key : String} {text : List Char}

theorem bool?_of_isWord {b : Bool} (hvalue : ini.value? heading key = some (String.ofList text))
    (h : Settings.IsWord b text) : ini.bool? heading key = .ok (some b) := by
  rw [bool?, hvalue]
  dsimp only
  rw [h.readBool?]

theorem unsigned?_of_isNumeral {n : Nat}
    (hvalue : ini.value? heading key = some (String.ofList text)) (h : Text.IsNumeral text n) :
    ini.unsigned? heading key =
      if n ≤ Text.maxUnsigned then .ok (some n)
      else .error "number too large to fit in target type" := by
  rw [unsigned?, hvalue]
  dsimp only
  rw [String.toList_ofList, h.read]
  by_cases hle : n ≤ Text.maxUnsigned
  · rw [if_pos hle, if_pos hle]
  · rw [if_neg hle, if_neg hle]
    rfl

end Ini

/-! ### Whole texts -/

namespace Policy

/-- The keys of the settings with the texts of their values. -/
def entries (strict limit allowed : List Char) : List (String × List Char) :=
  [("strict", strict), ("max_depth", limit), ("allow_empty_branches", allowed)]

/-- The text of settings has the heading and then a line for each setting, in any order and
with nothing but blank lines after them. -/
inductive WrittenAs (strict : Bool) (limit : Nat) (allowed : Bool) : String → Prop
  | intro {strictText limitText allowedText : List Char} {written : List (String × List Char)}
      {lines closing : List (List Char)} :
      Settings.IsWord strict strictText → Text.IsNumeral limitText limit →
      Settings.IsWord allowed allowedText →
      written.Perm (entries strictText limitText allowedText) → Ini.Give written lines →
      (∀ line ∈ closing, Text.InlineBlanks line) →
      WrittenAs strict limit allowed
        (String.ofList (['\n'].intercalate ("[validator]".toList :: (lines ++ closing))))

/-- Every policy can be written down. -/
theorem exists_writtenAs (strict : Bool) (limit : Nat) (allowed : Bool) :
    ∃ text, WrittenAs strict limit allowed text := by
  have hword : ∀ b, ∃ text, Settings.IsWord b text := by
    intro b
    cases b
    · exact ⟨"false".toList, "false", by decide, by decide⟩
    · exact ⟨"true".toList, "true", by decide, by decide⟩
  obtain ⟨strictText, hstrict⟩ := hword strict
  obtain ⟨allowedText, hallowed⟩ := hword allowed
  have hlimit : Text.IsNumeral (Nat.toDigits 10 limit) limit :=
    ⟨Nat.toDigits 10 limit, .inl rfl, Nat.toDigits_ne_nil,
      fun c hc => Nat.isDigit_of_mem_toDigits (by decide) (by decide) hc,
      Nat.ofDigitChars_ten_toDigits⟩
  have hline : ∀ key value, Text.InAnyCase key key.toList →
      Ini.Gives key value ([] ++ (key.toList ++ [] ++ '=' :: ([] ++ value)) ++ []) :=
    fun key value hkey => .intro [] key.toList [] [] [] nofun hkey nofun nofun nofun
  have hlines : Ini.Give (entries strictText (Nat.toDigits 10 limit) allowedText) _ :=
    .cons (hline "strict" _ (by decide)) (.cons (hline "max_depth" _ (by decide))
      (.cons (hline "allow_empty_branches" _ (by decide)) .nil))
  exact ⟨_, .intro hstrict hlimit hallowed (.refl _) hlines (List.forall_mem_nil _)⟩

section reading

variable {strict allowed : Bool} {limit : Nat} {strictText limitText allowedText : List Char}

theorem isEntry_of_mem_entries (hstrict : Settings.IsWord strict strictText)
    (hlimit : Text.IsNumeral limitText limit) (hallowed : Settings.IsWord allowed allowedText) :
    ∀ entry ∈ entries strictText limitText allowedText, Ini.IsEntry entry := by
  have hkey : ∀ key ∈ ["strict", "max_depth", "allow_empty_branches"],
      Text.Plain key.toList ∧ key ≠ "" := by decide
  intro entry hentry
  have hvalue : Ini.IsValue entry.2 := by
    rcases hentry with _ | ⟨_, _ | ⟨_, _ | ⟨_, ⟨⟩⟩⟩⟩
    · exact hstrict.isValue
    · exact hlimit.isValue
    · exact hallowed.isValue
  have hmem := hkey entry.1 (List.mem_map_of_mem (f := Prod.fst) hentry)
  exact ⟨hmem.1, hmem.2, hvalue⟩

theorem value?_of_perm {written : List (String × List Char)} (key : String) {text : List Char}
    (hperm : written.Perm (entries strictText limitText allowedText))
    (hmem : (key, text) ∈ entries strictText limitText allowedText) :
    (Ini.ofEntries heading written).value? heading key = some (String.ofList text) := by
  have hkeys : (written.map (·.1)).Perm ["strict", "max_depth", "allow_empty_branches"] :=
    hperm.map _
  have hlower : ∀ key ∈ ["strict", "max_depth", "allow_empty_branches"],
      Text.lower key.toList = key.toList := by decide +kernel
  exact Ini.value?_of_mem (hkeys.nodup_iff.mpr (by decide)) (hperm.mem_iff.mpr hmem)
    (by decide +kernel) (hlower key (List.mem_map_of_mem (f := Prod.fst) hmem))

theorem ofSettings_of_perm {written : List (String × List Char)}
    (hstrict : Settings.IsWord strict strictText) (hlimit : Text.IsNumeral limitText limit)
    (hallowed : Settings.IsWord allowed allowedText)
    (hperm : written.Perm (entries strictText limitText allowedText)) :
    ofSettings (Ini.ofEntries heading written).toSettings =
      if limit = 0 then
        .error (.invalidSetting heading "max_depth" "max_depth must be at least 1")
      else if limit ≤ Text.maxUnsigned then .ok ⟨strict, limit, allowed⟩
      else
        .error (.invalidSetting heading "max_depth"
          "number too large to fit in target type") := by
  have hstrict := Ini.bool?_of_isWord
    (value?_of_perm "strict" hperm (by simp [entries])) hstrict
  have hallowed := Ini.bool?_of_isWord
    (value?_of_perm "allow_empty_branches" hperm (by simp [entries])) hallowed
  have hlimit := Ini.unsigned?_of_isNumeral
    (value?_of_perm "max_depth" hperm (by simp [entries])) hlimit
  rw [ofSettings, Ini.toSettings]
  dsimp only
  rw [hstrict, hallowed, hlimit]
  by_cases hzero : limit = 0
  case pos =>
    subst hzero
    rfl
  rw [if_neg hzero]
  split
  case isTrue =>
    obtain ⟨limit, rfl⟩ := Nat.exists_eq_succ_of_ne_zero hzero
    rfl
  case isFalse => rfl

end reading

/-- **A policy that is written down is read as it was meant**, whatever the order of its lines,
their letter case and their blanks.  Only a limit of zero, and one that does not fit in 64 bits,
is refused. -/
theorem read_writtenAs {strict allowed : Bool} {limit : Nat} {text : String}
    (h : WrittenAs strict limit allowed text) :
    ∃ ini, Ini.read? text = .ok ini ∧
      ofSettings ini.toSettings =
        if limit = 0 then
          .error (.invalidSetting "validator" "max_depth" "max_depth must be at least 1")
        else if limit ≤ Text.maxUnsigned then
          .ok { strict := strict, maxDepth := limit, allowEmptyBranches := allowed }
        else
          .error (.invalidSetting "validator" "max_depth"
            "number too large to fit in target type") := by
  obtain ⟨hstrict, hlimit, hallowed, hperm, hlines, hclosing⟩ := h
  have hentries := fun entry hentry =>
    isEntry_of_mem_entries hstrict hlimit hallowed entry (hperm.mem_iff.mp hentry)
  have hheading : Ini.readLine "[validator]".toList = .ok (.heading heading) := by rfl
  have hread := Ini.read?_of_gives hheading (by decide) hentries hlines hclosing
  exact ⟨_, hread, ofSettings_of_perm hstrict hlimit hallowed hperm⟩

/-- A policy with its settings out of order, in mixed case, and with blanks. -/
def untidy : String :=
  "[validator]\n allow_empty_branches = oFF\nMAX_depth=\t+007 \r\nStrict =YES\n"

theorem writtenAs_untidy : WrittenAs true 7 false untidy := by
  have hallowedLine : Ini.Gives "allow_empty_branches" "oFF".toList
      " allow_empty_branches = oFF".toList :=
    .intro [' '] "allow_empty_branches".toList [' '] [' '] [] (by decide) (by decide)
      (by decide) (by decide) nofun
  have hlimitLine : Ini.Gives "max_depth" "+007".toList "MAX_depth=\t+007 \r".toList :=
    .intro [] "MAX_depth".toList [] ['\t'] [' ', '\r'] nofun (by decide) nofun (by decide)
      (by decide)
  have hstrictLine : Ini.Gives "strict" "YES".toList "Strict =YES".toList :=
    .intro [] "Strict".toList [' '] [] [] nofun (by decide) (by decide) nofun nofun
  have hstrict : Settings.IsWord true "YES".toList :=
    ⟨"yes", by decide, by decide⟩
  have hlimit : Text.IsNumeral "+007".toList 7 :=
    ⟨['0', '0', '7'], .inr rfl, List.cons_ne_nil _ _, List.all_eq_true.mp rfl, rfl⟩
  have hallowed : Settings.IsWord false "oFF".toList :=
    ⟨"off", by decide, by decide⟩
  have hperm := List.reverse_perm (entries "YES".toList "+007".toList "oFF".toList)
  have hclosing : ∀ line ∈ [[]], Text.InlineBlanks line := List.forall_mem_singleton.mpr nofun
  have hwritten := WrittenAs.intro hstrict hlimit hallowed hperm
    (.cons hallowedLine (.cons hlimitLine (.cons hstrictLine .nil))) hclosing
  exact hwritten

/-- A strict policy for seven levels without empty branches is read from untidy settings. -/
theorem read_untidy :
    ∃ ini, Ini.read? untidy = .ok ini ∧ ofSettings ini.toSettings = .ok ⟨true, 7, false⟩ :=
  read_writtenAs writtenAs_untidy

end Policy

end StrategyDoc
