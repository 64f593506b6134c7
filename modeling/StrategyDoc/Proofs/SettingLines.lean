import Mathlib.Data.List.Forall2
import Mathlib.Data.List.TakeWhile
import StrategyDoc.Proofs.Contracts
import StrategyDoc.Settings.Ini

/-! # Lines that give a setting

What the reader of settings makes of the lines that someone writes.  Blanks around a text do
not count when it is trimmed (`Text.trim_blanks`), and the capitals of the Latin alphabet are
all that lower case changes in a plain text (`Text.lower_of_plain`).  So a line with a key, an
equals sign and a value is read as just that (`Ini.readLine_of_gives`), whatever the case of the
key and wherever blanks stand between the parts.  Such lines in a row are so many settings
(`Ini.readLines_of_gives`), and each key has its own value as long as no key is given twice
(`Ini.value?_of_mem`). -/

namespace StrategyDoc

/-! ### Plain texts -/

namespace Text

/-- Letters, digits and underscores only. -/
def Plain (text : List Char) : Prop := ∀ c ∈ text, isNamePart c = true

/-- The text is the word, in any case. -/
def InAnyCase (word : String) (text : List Char) : Prop :=
  text.map Char.toLower = word.toList

instance (text : List Char) : Decidable (Plain text) :=
  List.decidableBAll (fun c => isNamePart c = true) text

instance (word : String) (text : List Char) : Decidable (InAnyCase word text) :=
  inferInstanceAs (Decidable (text.map Char.toLower = word.toList))

theorem lt_of_isNamePart {c : Char} (h : isNamePart c = true) : c.toNat < 128 := by
  have hle : ∀ {a b : Char}, a ≤ b → a.toNat ≤ b.toNat := fun h => UInt32.le_iff_toNat_le.mp h
  rcases (isNamePart_iff c).mp h with (⟨-, hZ⟩ | ⟨-, hz⟩) | ⟨-, h9⟩ | rfl
  · exact Nat.lt_of_le_of_lt (hle hZ) (by decide)
  · exact Nat.lt_of_le_of_lt (hle hz) (by decide)
  · exact Nat.lt_of_le_of_lt (hle h9) (by decide)
  · decide

/-- What holds of the first 128 characters as far as they can be in plain texts holds of all
characters in plain texts. -/
theorem of_isNamePart {p : Char → Prop} {c : Char} (h : isNamePart c = true)
    (hp : ∀ n < 128, isNamePart (Char.ofNat n) = true → p (Char.ofNat n)) : p c := by
  have hc := hp c.toNat (lt_of_isNamePart h)
  rw [Char.ofNat_toNat] at hc
  exact hc h

/-- The characters of plain texts are neither blank nor do they mean anything in a line. -/
theorem inert_of_isNamePart {c : Char} (h : isNamePart c = true) :
    isBlank c = false ∧ Ini.isComment c = false ∧ Ini.isSeparator c = false ∧ c ≠ '[' ∧
      c ≠ '\n' :=
  of_isNamePart (p := fun c => isBlank c = false ∧ Ini.isComment c = false ∧
    Ini.isSeparator c = false ∧ c ≠ '[' ∧ c ≠ '\n') h (by decide +kernel)

theorem lowerChar_of_isNamePart {c : Char} (h : isNamePart c = true) :
    c ≠ 'Σ' ∧ lowerChar c = [c.toLower] :=
  of_isNamePart (p := fun c => c ≠ 'Σ' ∧ lowerChar c = [c.toLower]) h (by decide +kernel)

theorem isNamePart_of_toLower {c : Char} (h : isNamePart c.toLower = true) :
    isNamePart c = true := by
  unfold Char.toLower at h
  split at h
  case isTrue hcapital => exact (isNamePart_iff c).mpr (.inl (.inl hcapital))
  case isFalse => exact h

/-- Lower case changes the capitals of a plain text, and what stands around it is the same to
it. -/
theorem lowerAfter_of_plain (before : List Char) {text : List Char} (h : Plain text) :
    lowerAfter before text = text.map Char.toLower := by
  induction text generalizing before with
  | nil => rfl
  | cons c rest ih =>
    obtain ⟨hc, hrest⟩ := List.forall_mem_cons.mp h
    obtain ⟨hsigma, hlower⟩ := lowerChar_of_isNamePart hc
    rw [lowerAfter, if_neg hsigma, hlower, ih (c :: before) hrest]
    rfl

theorem lower_of_plain {text : List Char} (h : Plain text) :
    lower text = text.map Char.toLower :=
  lowerAfter_of_plain [] h

namespace InAnyCase

variable {word : String} {text : List Char}

theorem plain (h : InAnyCase word text) (hword : Plain word.toList) : Plain text := by
  intro c hc
  have hlower : c.toLower ∈ word.toList := h ▸ List.mem_map_of_mem hc
  exact isNamePart_of_toLower (hword _ hlower)

theorem ne_nil (h : InAnyCase word text) (hword : word ≠ "") : text ≠ [] := by
  rintro rfl
  exact hword (String.toList_eq_nil_iff.mp h.symm)

theorem lower_eq (h : InAnyCase word text) (hword : Plain word.toList) :
    lower text = word.toList := by
  rw [lower_of_plain (h.plain hword)]
  exact h

end InAnyCase

/-! ### Blanks -/

/-- Blanks that do not end a line. -/
def InlineBlanks (text : List Char) : Prop := ∀ c ∈ text, isBlank c = true ∧ c ≠ '\n'

instance (text : List Char) : Decidable (InlineBlanks text) :=
  List.decidableBAll (fun c => isBlank c = true ∧ c ≠ '\n') text

/-- The text has no blanks. -/
def Unbroken (text : List Char) : Prop := ∀ c ∈ text, isBlank c = false

theorem Plain.unbroken {text : List Char} (h : Plain text) : Unbroken text :=
  fun c hc => (inert_of_isNamePart (h c hc)).1

theorem dropWhile_blank_of_head {text : List Char} (h : ∀ c ∈ text.head?, isBlank c = false) :
    text.dropWhile isBlank = text := by
  cases text with
  | nil => rfl
  | cons c rest => exact List.dropWhile_cons_of_neg (by simp [h c rfl])

theorem trim_of_ends {text : List Char} (hhead : ∀ c ∈ text.head?, isBlank c = false)
    (hlast : ∀ c ∈ text.getLast?, isBlank c = false) : trim text = text := by
  have hreverse : ∀ c ∈ text.reverse.head?, isBlank c = false := by rwa [List.head?_reverse]
  rw [trim, dropWhile_blank_of_head hhead, dropWhile_blank_of_head hreverse, List.reverse_reverse]

theorem Unbroken.trim_eq {text : List Char} (h : Unbroken text) : trim text = text :=
  trim_of_ends (fun c hc => h c (List.mem_of_head? hc))
    (fun c hc => h c (List.mem_of_getLast? hc))

theorem trim_blanks {before after : List Char} (hbefore : ∀ c ∈ before, isBlank c = true)
    (text : List Char) (hafter : ∀ c ∈ after, isBlank c = true) :
    trim (before ++ text ++ after) = trim text := by
  have hnone : after.dropWhile isBlank = [] := List.dropWhile_eq_nil_iff.mpr hafter
  rw [trim, trim, List.append_assoc, List.dropWhile_append_of_pos hbefore, List.dropWhile_append]
  split
  case isTrue hempty => rw [hnone, List.isEmpty_iff.mp hempty]
  case isFalse =>
    rw [List.reverse_append, List.dropWhile_append_of_pos]
    exact fun c hc => hafter c (List.mem_reverse.mp hc)

end Text

/-! ### One line -/

namespace Ini

open Text

theorem name_of_inAnyCase {word : String} {before text after : List Char}
    (hword : Plain word.toList) (hbefore : InlineBlanks before) (h : InAnyCase word text)
    (hafter : InlineBlanks after) : name (before ++ text ++ after) = word := by
  have htrim := trim_blanks (fun c hc => (hbefore c hc).1) text (fun c hc => (hafter c hc).1)
  rw [name, htrim, (h.plain hword).unbroken.trim_eq, h.lower_eq hword, String.ofList_toList]

/-- The text can be the value of a setting: there is something, without blanks, and no
comment. -/
structure IsValue (value : List Char) : Prop where
  ne_nil : value ≠ []
  unbroken : Unbroken value
  noComment : ∀ c ∈ value, isComment c = false

/-- The line has the key, in any case, and the value, with an equals sign between them and
blanks around each of the three. -/
inductive Gives (key : String) (value : List Char) : List Char → Prop
  | intro (before keyText inner₁ inner₂ after : List Char) : InlineBlanks before →
      InAnyCase key keyText → InlineBlanks inner₁ → InlineBlanks inner₂ → InlineBlanks after →
      Gives key value (before ++ (keyText ++ inner₁ ++ '=' :: (inner₂ ++ value)) ++ after)

theorem isBlank_of_isComment {c : Char} (h : isComment c = true) : isBlank c = false := by
  rw [isComment, Bool.or_eq_true, beq_iff_eq, beq_iff_eq] at h
  rcases h with rfl | rfl <;> decide

theorem isBlank_of_isSeparator {c : Char} (h : isSeparator c = true) : isBlank c = false := by
  rw [isSeparator, Bool.or_eq_true, beq_iff_eq, beq_iff_eq] at h
  rcases h with rfl | rfl <;> decide

section lines

variable {key : String} {value keyText inner₁ inner₂ line : List Char}

theorem readContent_setting (hkey : Plain key.toList) (hne : key ≠ "")
    (hkeyText : InAnyCase key keyText) (hinner₁ : InlineBlanks inner₁)
    (hinner₂ : InlineBlanks inner₂) (hvalue : Unbroken value) :
    readContent (keyText ++ inner₁ ++ '=' :: (inner₂ ++ value))
      = .ok (.setting key (some (String.ofList value))) := by
  have hplain := hkeyText.plain hkey
  have hseparator : ∀ c ∈ keyText ++ inner₁, (!isSeparator c) = true := by
    intro c hc
    rw [Bool.not_eq_true', ← Bool.not_eq_true]
    rcases List.mem_append.mp hc with hc | hc
    · rw [(inert_of_isNamePart (hplain c hc)).2.2.1]
      exact Bool.false_ne_true
    · exact fun hsep => nomatch (hinner₁ c hc).1.symm.trans (isBlank_of_isSeparator hsep)
  have htake : (keyText ++ inner₁ ++ '=' :: (inner₂ ++ value)).takeWhile (!isSeparator ·)
      = keyText ++ inner₁ := by
    rw [List.takeWhile_append_of_pos hseparator, List.takeWhile_cons_of_neg (by decide),
      List.append_nil]
  have hdrop : (keyText ++ inner₁ ++ '=' :: (inner₂ ++ value)).dropWhile (!isSeparator ·)
      = '=' :: (inner₂ ++ value) := by
    rw [List.dropWhile_append_of_pos hseparator, List.dropWhile_cons_of_neg (by decide)]
  have hname : name ([] ++ keyText ++ inner₁) = key :=
    name_of_inAnyCase hkey nofun hkeyText hinner₁
  have htrim : trim (inner₂ ++ value ++ []) = trim value :=
    trim_blanks (fun c hc => (hinner₂ c hc).1) value nofun
  rw [List.nil_append] at hname
  rw [List.append_nil, hvalue.trim_eq] at htrim
  obtain ⟨first, rest, rfl⟩ := List.exists_cons_of_ne_nil (hkeyText.ne_nil hne)
  have hbracket := (inert_of_isNamePart (hplain first List.mem_cons_self)).2.2.2.1
  unfold readContent
  split
  case h_1 hnil => nomatch hnil
  case h_2 hopen => exact absurd (List.cons.inj hopen).1 hbracket
  case h_3 =>
    dsimp only
    rw [htake, hdrop, hname]
    dsimp only
    rw [htrim]
    exact if_neg (by simpa using hne)

theorem trim_setting (hkey : Plain key.toList) (hne : key ≠ "") (hvalue : IsValue value)
    (hkeyText : InAnyCase key keyText) (inner₁ inner₂ : List Char) :
    trim (keyText ++ inner₁ ++ '=' :: (inner₂ ++ value))
      = keyText ++ inner₁ ++ '=' :: (inner₂ ++ value) := by
  apply trim_of_ends
  · obtain ⟨first, rest, rfl⟩ := List.exists_cons_of_ne_nil (hkeyText.ne_nil hne)
    rintro c ⟨⟩
    exact (hkeyText.plain hkey).unbroken first List.mem_cons_self
  · intro c hc
    have hassoc : keyText ++ inner₁ ++ '=' :: (inner₂ ++ value)
        = (keyText ++ inner₁ ++ '=' :: inner₂) ++ value := by simp
    rw [hassoc, List.getLast?_append_of_ne_nil _ hvalue.ne_nil] at hc
    exact hvalue.unbroken c (List.mem_of_getLast? hc)

theorem noComment_setting (hkey : Plain key.toList) (hvalue : IsValue value)
    (hkeyText : InAnyCase key keyText) (hinner₁ : InlineBlanks inner₁)
    (hinner₂ : InlineBlanks inner₂) :
    ∀ c ∈ keyText ++ inner₁ ++ '=' :: (inner₂ ++ value), isComment c = false := by
  have hblank : ∀ text, InlineBlanks text → ∀ c ∈ text, isComment c = false := by
    intro text htext c hc
    rw [← Bool.not_eq_true]
    exact fun h => nomatch (htext c hc).1.symm.trans (isBlank_of_isComment h)
  intro c hc
  simp only [List.mem_append, List.mem_cons] at hc
  rcases hc with (hc | hc) | rfl | hc | hc
  · exact (inert_of_isNamePart (hkeyText.plain hkey c hc)).2.1
  · exact hblank inner₁ hinner₁ c hc
  · decide
  · exact hblank inner₂ hinner₂ c hc
  · exact hvalue.noComment c hc

/-- A line with a key and a value is read as them. -/
theorem readLine_of_gives (hkey : Plain key.toList) (hne : key ≠ "") (hvalue : IsValue value)
    (h : Gives key value line) :
    readLine line = .ok (.setting key (some (String.ofList value))) := by
  obtain ⟨before, keyText, inner₁, inner₂, after, hbefore, hkeyText, hinner₁, hinner₂, hafter⟩ := h
  have houter := trim_blanks (fun c hc => (hbefore c hc).1)
    (keyText ++ inner₁ ++ '=' :: (inner₂ ++ value)) (fun c hc => (hafter c hc).1)
  have htrim := trim_setting hkey hne hvalue hkeyText inner₁ inner₂
  have hcomment : ∀ c ∈ keyText ++ inner₁ ++ '=' :: (inner₂ ++ value), (!isComment c) = true :=
    fun c hc => by rw [noComment_setting hkey hvalue hkeyText hinner₁ hinner₂ c hc]; rfl
  rw [readLine, houter, htrim, List.takeWhile_eq_self_iff.mpr hcomment, htrim]
  exact readContent_setting hkey hne hkeyText hinner₁ hinner₂ hvalue.unbroken

theorem Gives.newline_not_mem (h : Gives key value line) (hkey : Plain key.toList)
    (hvalue : Unbroken value) : '\n' ∉ line := by
  obtain ⟨_, _, _, _, _, hbefore, hkeyText, hinner₁, hinner₂, hafter⟩ := h
  have hblank : ∀ text, InlineBlanks text → '\n' ∉ text :=
    fun text htext hc => (htext '\n' hc).2 rfl
  have hplain : ∀ text, Unbroken text → '\n' ∉ text :=
    fun text htext hc => nomatch htext '\n' hc
  simp only [List.mem_append, List.mem_cons, not_or]
  exact ⟨⟨hblank _ hbefore, ⟨hplain _ (hkeyText.plain hkey).unbroken, hblank _ hinner₁⟩,
    by decide, hblank _ hinner₂, hplain _ hvalue⟩, hblank _ hafter⟩

theorem readLine_of_blanks (h : InlineBlanks line) : readLine line = .ok .nothing := by
  have htrim : trim ([] ++ [] ++ line) = [] :=
    trim_blanks (List.forall_mem_nil _) [] fun c hc => (h c hc).1
  rw [List.nil_append, List.nil_append] at htrim
  rw [readLine, htrim]
  rfl

end lines

/-! ### Lines in a row -/

theorem readLines_of_blanks (number : Nat) (heading : String) {lines : List (List Char)}
    (h : ∀ line ∈ lines, InlineBlanks line) : readLines number heading lines = .ok [] := by
  induction lines generalizing number with
  | nil => rfl
  | cons line rest ih =>
    obtain ⟨hline, hrest⟩ := List.forall_mem_cons.mp h
    rw [readLines, readLine_of_blanks hline]
    exact ih (number + 1) hrest

/-- The lines give keys and values, in this order. -/
def Give (entries : List (String × List Char)) (lines : List (List Char)) : Prop :=
  List.Forall₂ (fun entry line => Gives entry.1 entry.2 line) entries lines

/-- The key is a plain word in lower case, and the text can be its value. -/
structure IsEntry (entry : String × List Char) : Prop where
  key_plain : Plain entry.1.toList
  key_ne : entry.1 ≠ ""
  value : IsValue entry.2

/-- The settings that entries are under a heading. -/
def ofEntries (heading : String) (entries : List (String × List Char)) : Ini :=
  ⟨entries.map fun entry => ⟨heading, entry.1, some (String.ofList entry.2)⟩⟩

theorem readLines_of_gives (number : Nat) (heading : String)
    {entries : List (String × List Char)} {lines closing : List (List Char)}
    (hentries : ∀ entry ∈ entries, IsEntry entry) (hlines : Give entries lines)
    (hclosing : ∀ line ∈ closing, InlineBlanks line) :
    readLines number heading (lines ++ closing) = .ok (ofEntries heading entries).settings := by
  induction hlines generalizing number with
  | nil => exact readLines_of_blanks number heading hclosing
  | @cons entry line entries lines hline _ ih =>
    obtain ⟨hentry, hentries⟩ := List.forall_mem_cons.mp hentries
    rw [List.cons_append, readLines,
      readLine_of_gives hentry.key_plain hentry.key_ne hentry.value hline]
    dsimp only
    rw [ih (number + 1) hentries]
    rfl

theorem Give.newline_not_mem {entries : List (String × List Char)} {lines : List (List Char)}
    (h : Give entries lines) (hentries : ∀ entry ∈ entries, IsEntry entry) :
    ∀ line ∈ lines, '\n' ∉ line := by
  induction h with
  | nil => nofun
  | @cons entry line entries lines hline _ ih =>
    obtain ⟨hentry, hentries⟩ := List.forall_mem_cons.mp hentries
    exact List.forall_mem_cons.mpr
      ⟨hline.newline_not_mem hentry.key_plain hentry.value.unbroken, ih hentries⟩

/-- A heading with lines below that give keys and values is read as settings. -/
theorem read?_of_gives {heading : String} {first : List Char}
    {entries : List (String × List Char)} {lines closing : List (List Char)}
    (hfirst : readLine first = .ok (.heading heading)) (hnewline : '\n' ∉ first)
    (hentries : ∀ entry ∈ entries, IsEntry entry) (hlines : Give entries lines)
    (hclosing : ∀ line ∈ closing, InlineBlanks line) :
    read? (String.ofList (['\n'].intercalate (first :: (lines ++ closing))))
      = .ok (ofEntries heading entries) := by
  have hlinewise : ∀ line ∈ first :: (lines ++ closing), '\n' ∉ line := by
    intro line hline
    rcases List.mem_cons.mp hline with rfl | hline
    · exact hnewline
    · rcases List.mem_append.mp hline with hline | hline
      · exact hlines.newline_not_mem hentries line hline
      · exact fun hc => (hclosing line hline '\n' hc).2 rfl
  rw [read?, String.toList_ofList, List.splitOn_intercalate '\n' hlinewise (List.cons_ne_nil _ _),
    readLines, hfirst]
  dsimp only
  rw [readLines_of_gives _ heading hentries hlines hclosing]
  rfl

/-! ### Looking up -/

/-- If no key is given twice, each has its own value. -/
theorem value?_of_mem {heading key : String} {text : List Char}
    {entries : List (String × List Char)} (hnodup : (entries.map (·.1)).Nodup)
    (hmem : (key, text) ∈ entries) (hheading : lower heading.toList = heading.toList)
    (hkey : lower key.toList = key.toList) :
    (ofEntries heading entries).value? heading key = some (String.ofList text) := by
  have hsetting : (⟨heading, key, some (String.ofList text)⟩ : Setting)
      ∈ (ofEntries heading entries).settings.reverse :=
    List.mem_reverse.mpr (List.mem_map_of_mem hmem)
  rw [value?, find?, hheading, hkey, String.ofList_toList, String.ofList_toList]
  cases hfind : (ofEntries heading entries).settings.reverse.find?
      fun s => s.heading == heading && s.key == key with
  | none => exact absurd (List.find?_eq_none.mp hfind _ hsetting) (by simp)
  | some found =>
    have hfound := List.mem_reverse.mp (List.mem_of_find?_eq_some hfind)
    obtain ⟨entry, hentry, rfl⟩ := List.mem_map.mp hfound
    have hsame : entry.1 = key := by simpa using List.find?_some hfind
    have heq : entry = (key, text) := List.inj_on_of_nodup_map hnodup hentry hmem hsame
    rw [heq]
    rfl

end Ini

end StrategyDoc
