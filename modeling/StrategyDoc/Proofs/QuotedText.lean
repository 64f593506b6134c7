import StrategyDoc.Json.Quoted
import StrategyDoc.Proofs.Reading

/-! # Strings that are read back

A character can be written in a string in several ways: as itself, by a letter behind a
backslash, or by its UTF-16 units (`SpellsChar`).  Each way takes one step to read
(`readChars_of_spellsChar`), so every spelling of a string is read as that string
(`SpellsChars.unquote_eq`).  The written form of a string is one of them
(`spellsString_quote`), and it stands on one line (`newline_notMem_quote`). -/

namespace StrategyDoc.Json

/-! ### Units -/

theorem length_le_byteSize (text : List Char) : text.length ≤ byteSize text := by
  induction text with
  | nil => exact Nat.le_refl 0
  | cons c rest ih =>
      have hc := Char.utf8Size_pos c
      show rest.length + 1 ≤ c.utf8Size + byteSize rest
      omega

theorem readUnit_of_hexUnit? {a b c d : Char} {unit : Nat} (h : hexUnit? a b c d = some unit)
    (rest : List Char) : readUnit (a :: b :: c :: d :: rest) = .ok (unit, rest) := by
  have hsize := length_le_byteSize [a, b, c, d]
  have hfour : ¬ byteSize (List.take 4 (a :: b :: c :: d :: rest)) < 4 := Nat.not_lt.mpr hsize
  unfold readUnit
  rw [if_neg hfour]
  simp only [h]

theorem isSurrogate_toNat (c : Char) :
    isLowSurrogate c.toNat = false ∧ isHighSurrogate c.toNat = false := by
  have hvalid : c.toNat < 0xd800 ∨ 0xdfff < c.toNat ∧ c.toNat < 0x110000 := c.valid
  unfold isLowSurrogate isHighSurrogate
  simp
  omega

theorem readUnicode_of_unit {c₁ c₂ c₃ c₄ c : Char} (h : hexUnit? c₁ c₂ c₃ c₄ = some c.toNat)
    (rest : List Char) : readUnicode (c₁ :: c₂ :: c₃ :: c₄ :: rest) = .ok (c, rest) := by
  obtain ⟨hlow, hhigh⟩ := isSurrogate_toNat c
  unfold readUnicode
  rw [readUnit_of_hexUnit? h]
  show (if isLowSurrogate c.toNat then _ else if isHighSurrogate c.toNat then _ else _) = _
  rw [hlow, hhigh, if_neg (by decide), if_neg (by decide), Char.ofNat_toNat]

/-- The high and the low surrogate of a character beyond the first plane. -/
def highUnit (c : Char) : Nat := 0xd800 + (c.toNat - 0x10000) / 0x400

def lowUnit (c : Char) : Nat := 0xdc00 + (c.toNat - 0x10000) % 0x400

theorem isHighSurrogate_highUnit {c : Char} (hc : 0x10000 ≤ c.toNat) :
    isLowSurrogate (highUnit c) = false ∧ isHighSurrogate (highUnit c) = true := by
  have hvalid : c.toNat < 0xd800 ∨ 0xdfff < c.toNat ∧ c.toNat < 0x110000 := c.valid
  unfold isLowSurrogate isHighSurrogate highUnit
  simp
  omega

theorem isLowSurrogate_lowUnit (c : Char) : isLowSurrogate (lowUnit c) = true := by
  unfold isLowSurrogate lowUnit
  simp
  omega

theorem toNat_units {c : Char} (hc : 0x10000 ≤ c.toNat) :
    0x10000 + (highUnit c - 0xd800) * 0x400 + (lowUnit c - 0xdc00) = c.toNat := by
  unfold highUnit lowUnit
  omega

theorem pairChar_units {c : Char} (hc : 0x10000 ≤ c.toNat) :
    pairChar (highUnit c) (lowUnit c) = c := by
  unfold pairChar
  rw [toNat_units hc, Char.ofNat_toNat]

theorem readUnicode_of_surrogates {h₁ h₂ h₃ h₄ l₁ l₂ l₃ l₄ : Char} {high low : Nat}
    (hhigh : hexUnit? h₁ h₂ h₃ h₄ = some high) (hlow : hexUnit? l₁ l₂ l₃ l₄ = some low)
    (hfirst : isLowSurrogate high = false ∧ isHighSurrogate high = true)
    (hsecond : isLowSurrogate low = true) (rest : List Char) :
    readUnicode (h₁ :: h₂ :: h₃ :: h₄ :: '\\' :: 'u' :: l₁ :: l₂ :: l₃ :: l₄ :: rest)
      = .ok (pairChar high low, rest) := by
  unfold readUnicode
  rw [readUnit_of_hexUnit? hhigh]
  dsimp only [bind, Except.bind]
  rw [hfirst.1, hfirst.2, if_neg (by decide), if_pos rfl]
  simp only [readUnit_of_hexUnit? hlow, hsecond, if_true]

/-- Any other character is read from its surrogates. -/
theorem readUnicode_of_pair {h₁ h₂ h₃ h₄ l₁ l₂ l₃ l₄ c : Char} (hc : 0x10000 ≤ c.toNat)
    (hhigh : hexUnit? h₁ h₂ h₃ h₄ = some (highUnit c))
    (hlow : hexUnit? l₁ l₂ l₃ l₄ = some (lowUnit c)) (rest : List Char) :
    readUnicode (h₁ :: h₂ :: h₃ :: h₄ :: '\\' :: 'u' :: l₁ :: l₂ :: l₃ :: l₄ :: rest)
      = .ok (c, rest) := by
  have hread := readUnicode_of_surrogates hhigh hlow (isHighSurrogate_highUnit hc)
    (isLowSurrogate_lowUnit c) rest
  rwa [pairChar_units hc] at hread

/-! ### Characters -/

/-- The texts that stand for a character in a string. -/
inductive SpellsChar : Char → List Char → Prop
  /-- The character itself. -/
  | plain {c : Char} (hquote : c ≠ '"') (hbackslash : c ≠ '\\') (hcontrol : ¬ c < ' ') :
      SpellsChar c [c]
  /-- A backslash and the letter of the character. -/
  | letter {c letter : Char} (h : escapedChar? letter = some c) : SpellsChar c ['\\', letter]
  /-- The number of the character in hexadecimal. -/
  | unit {c c₁ c₂ c₃ c₄ : Char} (h : hexUnit? c₁ c₂ c₃ c₄ = some c.toNat) :
      SpellsChar c ['\\', 'u', c₁, c₂, c₃, c₄]
  /-- The surrogates of a character beyond the first plane. -/
  | pair {c h₁ h₂ h₃ h₄ l₁ l₂ l₃ l₄ : Char} (hc : 0x10000 ≤ c.toNat)
      (hhigh : hexUnit? h₁ h₂ h₃ h₄ = some (highUnit c))
      (hlow : hexUnit? l₁ l₂ l₃ l₄ = some (lowUnit c)) :
      SpellsChar c ['\\', 'u', h₁, h₂, h₃, h₄, '\\', 'u', l₁, l₂, l₃, l₄]

/-- A character together with those that are read after it. -/
def consRead (c : Char) (read : Except Fault (List Char × List Char)) :
    Except Fault (List Char × List Char) := do
  let (others, rest) ← read
  return (c :: others, rest)

theorem readChars_backslash {steps : Nat} {text rest : List Char} {c : Char}
    (h : readEscape text = .ok (c, rest)) :
    readChars (steps + 1) ('\\' :: text) = consRead c (readChars steps rest) := by
  rw [readChars, if_neg (by decide), if_pos rfl, h]
  rfl

theorem readEscape_of_letter {c letter : Char} (h : escapedChar? letter = some c)
    (rest : List Char) : readEscape (letter :: rest) = .ok (c, rest) := by
  unfold readEscape
  split
  · next heq => cases heq
  · next heq =>
      cases heq
      cases h
  · next heq =>
      cases heq
      rw [h]

theorem readChars_of_spellsChar {c : Char} {spelling : List Char} (h : SpellsChar c spelling)
    (steps : Nat) (text : List Char) :
    readChars (steps + 1) (spelling ++ text) = consRead c (readChars steps text) := by
  cases h with
  | plain hquote hbackslash hcontrol =>
      rw [List.singleton_append, readChars, if_neg hquote, if_neg hbackslash, if_neg hcontrol]
      rfl
  | letter h => exact readChars_backslash (readEscape_of_letter h text)
  | unit h => exact readChars_backslash (readUnicode_of_unit h text)
  | pair hc hhigh hlow => exact readChars_backslash (readUnicode_of_pair hc hhigh hlow text)

theorem length_pos_of_spellsChar {c : Char} {spelling : List Char} (h : SpellsChar c spelling) :
    0 < spelling.length := by
  cases h <;> exact Nat.succ_pos _

theorem hexUnit?_hexChar {n : Nat} (hn : n < 256) :
    hexUnit? '0' '0' (hexChar (n / 16)) (hexChar (n % 16)) = some n := by
  have hzero : hexValue? '0' = some 0 := rfl
  have hhigh := hexValue?_hexChar (n / 16) (by omega)
  have hlow := hexValue?_hexChar (n % 16) (by omega)
  have hvalue : 0 * 4096 + 0 * 256 + n / 16 * 16 + n % 16 = n := by omega
  simp only [hexUnit?, hzero, hhigh, hlow, Option.bind_eq_bind, Option.bind_some, hvalue]
  rfl

theorem spellsChar_escape (c : Char) : SpellsChar c (escape c) := by
  unfold escape
  by_cases hquote : c = '"'
  · subst hquote
    exact .letter rfl
  by_cases hbackslash : c = '\\'
  · subst hbackslash
    exact .letter rfl
  by_cases hnewline : c = '\n'
  · subst hnewline
    exact .letter rfl
  by_cases hreturn : c = '\r'
  · subst hreturn
    exact .letter rfl
  by_cases htab : c = '\t'
  · subst htab
    exact .letter rfl
  by_cases hbackspace : c = '\x08'
  · subst hbackspace
    exact .letter rfl
  by_cases hfeed : c = '\x0c'
  · subst hfeed
    exact .letter rfl
  rw [if_neg hquote, if_neg hbackslash, if_neg hnewline, if_neg hreturn, if_neg htab,
    if_neg hbackspace, if_neg hfeed]
  by_cases hcontrol : c < ' '
  · have hnat : c.toNat < 32 := hcontrol
    rw [if_pos hcontrol]
    exact .unit (hexUnit?_hexChar (by omega))
  · rw [if_neg hcontrol]
    exact .plain hquote hbackslash hcontrol

/-! ### Strings -/

/-- The texts that stand for some characters in a string. -/
inductive SpellsChars : List Char → List Char → Prop
  | nil : SpellsChars [] []
  | cons {c : Char} {chars spelling text : List Char} (hfirst : SpellsChar c spelling)
      (hrest : SpellsChars chars text) : SpellsChars (c :: chars) (spelling ++ text)

/-- The text between its quotes stands for the string. -/
inductive SpellsString (s : String) : List Char → Prop
  | quoted {text : List Char} (h : SpellsChars s.toList text) :
      SpellsString s ('"' :: (text ++ ['"']))

theorem SpellsChars.length_le {chars text : List Char} (h : SpellsChars chars text) :
    chars.length ≤ text.length := by
  induction h with
  | nil => exact Nat.le_refl 0
  | cons hfirst _ ih =>
      have hpos := length_pos_of_spellsChar hfirst
      rw [List.length_append, List.length_cons]
      omega

theorem SpellsChars.readChars_eq {chars text : List Char} (h : SpellsChars chars text)
    {steps : Nat} (hsteps : chars.length < steps) (rest : List Char) :
    readChars steps (text ++ '"' :: rest) = .ok (chars, rest) := by
  induction h generalizing steps with
  | nil =>
      cases steps with
      | zero => exact absurd hsteps (Nat.not_lt_zero _)
      | succ steps => rfl
  | cons hfirst _ ih =>
      cases steps with
      | zero => exact absurd hsteps (Nat.not_lt_zero _)
      | succ steps =>
          have hothers := ih (Nat.lt_of_succ_lt_succ hsteps)
          rw [List.append_assoc, readChars_of_spellsChar hfirst, hothers]
          rfl

/-- **Every spelling of a string is read as the string.** -/
theorem SpellsChars.unquote_eq {s : String} {text : List Char} (h : SpellsChars s.toList text)
    (rest : List Char) : unquote (text ++ '"' :: rest) = .ok (s, rest) := by
  have hlength := h.length_le
  have hsteps : s.toList.length < (text ++ '"' :: rest).length := by
    rw [List.length_append, List.length_cons]
    omega
  unfold unquote
  rw [h.readChars_eq hsteps]
  show Except.ok (String.ofList s.toList, rest) = _
  rw [String.ofList_toList]

theorem spellsChars_flatMap_escape (chars : List Char) :
    SpellsChars chars (chars.flatMap escape) := by
  induction chars with
  | nil => exact .nil
  | cons c others ih => exact .cons (spellsChar_escape c) ih

theorem spellsString_quote (s : String) : SpellsString s (quote s) :=
  .quoted (spellsChars_flatMap_escape s.toList)

/-! ### Lines -/

theorem newline_notMem_escape (c : Char) : '\n' ∉ escape c := by
  have hhex : ∀ n < 16, hexChar n ≠ '\n' := by decide
  unfold escape
  by_cases hnewline : c = '\n'
  · subst hnewline
    decide
  by_cases hcontrol : c < ' '
  · have hnat : c.toNat < 32 := hcontrol
    have hhigh := hhex (c.toNat / 16) (by omega)
    have hlow := hhex (c.toNat % 16) (by omega)
    repeat' split
    all_goals simp [Ne.symm hhigh, Ne.symm hlow]
  · rw [if_neg hcontrol]
    repeat' split
    all_goals simp [Ne.symm hnewline]

/-- **A written string has no line break in it.** -/
theorem newline_notMem_quote (s : String) : '\n' ∉ quote s := by
  have hescape : '\n' ∉ s.toList.flatMap escape := by
    rw [List.mem_flatMap]
    rintro ⟨c, -, hc⟩
    exact newline_notMem_escape c hc
  unfold quote
  simp [hescape]

end StrategyDoc.Json
