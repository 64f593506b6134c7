import StrategyDoc.Json.Parser
import StrategyDoc.Proofs.Numerals
import StrategyDoc.Proofs.QuotedText

/-! # What the readers make of a text

One lemma for each thing that a reader can meet: the text of a token with what follows it, an
item or an entry with the items or entries behind it, or the end of an array or object.
Blanks may stand between tokens anywhere (`readValueIn_blanks`).

The lemmas do not ask whether the parts are read (`Yields`): what is put together is read if
all its parts are, and otherwise the reader fails. -/

namespace StrategyDoc.Json

/-! ### Results of a reader -/

/-- The reader yields the result and the rest of the text, or fails if there is no result. -/
def Yields {α : Type} (read : Except Fault (α × List Char)) (result : Option α)
    (rest : List Char) : Prop :=
  read.toOption = result.map (·, rest)

section yields

variable {α β : Type} {read : Except Fault (α × List Char)} {result : Option α}
  {rest : List Char} {next : α × List Char → Except Fault (β × List Char)}

theorem yields_some_iff {a : α} : Yields read (some a) rest ↔ read = .ok (a, rest) := by
  cases read with
  | error fault => exact ⟨nofun, nofun⟩
  | ok r =>
      exact ⟨fun h => congrArg Except.ok (Option.some.inj h),
        fun h => congrArg some (Except.ok.inj h)⟩

theorem Yields.eq_ok_iff (h : Yields read result rest) {a : α} {rest' : List Char} :
    read = .ok (a, rest') ↔ result = some a ∧ rest' = rest := by
  cases result with
  | none =>
      cases read with
      | error fault => exact ⟨nofun, nofun⟩
      | ok r => cases h
  | some b =>
      rw [yields_some_iff.mp h]
      constructor
      · rintro ⟨⟩
        exact ⟨rfl, rfl⟩
      · rintro ⟨⟨⟩, rfl⟩
        rfl

/-- Two readers in a row yield what both yield together. -/
theorem Yields.bind (h : Yields read result rest) {value : α → Option β} {rest' : List Char}
    (hnext : ∀ a, Yields (next (a, rest)) (value a) rest') :
    Yields (read >>= next) (result.bind value) rest' := by
  cases result with
  | none =>
      cases read with
      | error fault => rfl
      | ok r => cases h
  | some a =>
      rw [yields_some_iff.mp h]
      exact hnext a

theorem Yields.map (h : Yields read result rest) {f : α → β}
    (hnext : ∀ a, next (a, rest) = .ok (f a, rest)) :
    Yields (read >>= next) (result.map f) rest := by
  rw [Option.map_eq_bind]
  exact h.bind fun a => yields_some_iff.mpr (hnext a)

end yields

/-! ### Blanks -/

def AllBlank (text : List Char) : Prop := ∀ c ∈ text, isBlank c = true

theorem skipBlanks_append {blanks : List Char} (h : AllBlank blanks) (text : List Char) :
    skipBlanks (blanks ++ text) = skipBlanks text := by
  unfold skipBlanks
  exact List.dropWhile_append_of_pos h

theorem skipBlanks_cons {c : Char} (h : isBlank c = false) (text : List Char) :
    skipBlanks (c :: text) = c :: text := by
  unfold skipBlanks
  rw [List.dropWhile_cons, if_neg (by rw [h]; decide)]

theorem numberEnds_of_isBlank {c : Char} {rest : List Char} (h : isBlank c = true) :
    NumberEnds (c :: rest) := by
  have hcases : c = ' ' ∨ c = '\n' ∨ c = '\t' ∨ c = '\r' := by
    simpa [isBlank, or_assoc] using h
  rcases hcases with rfl | rfl | rfl | rfl <;> exact numberEnds_cons.mpr (by decide)

theorem numberEnds_blanks {blanks : List Char} (h : AllBlank blanks) {rest : List Char}
    (hrest : NumberEnds rest) : NumberEnds (blanks ++ rest) := by
  cases blanks with
  | nil => exact hrest
  | cons c more => exact numberEnds_of_isBlank (h c List.mem_cons_self)

/-! ### Reading a token -/

theorem isBlank_eq_false_of_isDigit {c : Char} (h : isDigit c = true) : isBlank c = false := by
  have hne : ∀ d, isDigit d = false → c ≠ d := by
    rintro d hd rfl
    rw [hd] at h
    cases h
  have hspace := hne ' ' (by decide)
  have hnewline := hne '\n' (by decide)
  have htab := hne '\t' (by decide)
  have hreturn := hne '\r' (by decide)
  simp [isBlank, hspace, hnewline, htab, hreturn]

section tokens

variable {steps : Nat} {text rest : List Char}

/-- A number is read wherever a value is expected. -/
theorem readValueIn_signed (hstarts : NumberStarts text) :
    readValueIn (steps + 1) text = (do
      let (n, rest) ← readSigned text
      return (.number n, rest)) := by
  obtain ⟨c, more, rfl, hc⟩ := hstarts
  rcases hc with rfl | hdigit
  · have hsigned : readSigned ('-' :: more) = readNumber true more := rfl
    rw [readValueIn, skipBlanks_cons (by decide), hsigned]
    rfl
  · rw [readSigned_eq_readNumber hdigit, readValueIn,
      skipBlanks_cons (isBlank_eq_false_of_isDigit hdigit)]
    split
    case h_1 h => cases h
    case h_9 h =>
      cases h
      rw [if_pos hdigit]
    -- No digit starts a word, a string, an array, an object or a negative number.
    all_goals
      next h =>
        cases h
        exact absurd hdigit (by decide)

theorem readValueIn_number {n : Option Number} (hstarts : NumberStarts text)
    (hread : Yields (readSigned text) n rest) :
    Yields (readValueIn (steps + 1) text) (n.map .number) rest := by
  rw [readValueIn_signed hstarts]
  exact hread.map fun _ => rfl

theorem readValueIn_string {s : String} (h : SpellsString s text) :
    Yields (readValueIn (steps + 1) (text ++ rest)) (some (.string s)) rest := by
  cases h with
  | @quoted chars h =>
      have hread : Yields (unquote (chars ++ ['"'] ++ rest)) (some s) rest := by
        rw [List.append_assoc]
        exact yields_some_iff.mpr (h.unquote_eq rest)
      rw [readValueIn, List.cons_append, skipBlanks_cons (by decide)]
      exact hread.map fun _ => rfl

theorem readValueIn_array {items : Option (List Json)}
    (h : Yields (readItems steps text) items rest) :
    Yields (readValueIn (steps + 1) ('[' :: text)) (items.map .array) rest := by
  rw [readValueIn, skipBlanks_cons (by decide)]
  exact h.map fun _ => rfl

theorem readValueIn_object {entries : Option (List (String × Json))}
    (h : Yields (readEntries steps text) entries rest) :
    Yields (readValueIn (steps + 1) ('\x7b' :: text))
      (entries.map fun entries => .object (ofEntries entries)) rest := by
  rw [readValueIn, skipBlanks_cons (by decide)]
  exact h.map fun _ => rfl

/-- Blanks in front of a value do not matter. -/
theorem readValueIn_blanks {blanks : List Char} (h : AllBlank blanks) (text : List Char) :
    readValueIn steps (blanks ++ text) = readValueIn steps text := by
  cases steps with
  | zero => rw [readValueIn, readValueIn]
  | succ steps => rw [readValueIn, readValueIn, skipBlanks_append h]

end tokens

/-! ### Reading items -/

section items

variable {steps : Nat} {blanks text others rest : List Char} {c : Char} {item : Option Json}
  {items : Option (List Json)}

/-- Blanks in front of an item, or of the end of an array, do not matter. -/
theorem readItems_blanks (h : AllBlank blanks) (text : List Char) :
    readItems steps (blanks ++ text) = readItems steps text := by
  cases steps with
  | zero => rw [readItems, readItems]
  | succ steps => rw [readItems, readItems, skipBlanks_append h]

theorem readMoreItems_blanks (h : AllBlank blanks) (text : List Char) :
    readMoreItems steps (blanks ++ text) = readMoreItems steps text := by
  cases steps with
  | zero => rw [readMoreItems, readMoreItems]
  | succ steps => rw [readMoreItems, readMoreItems, skipBlanks_append h]

theorem readItems_nil : Yields (readItems (steps + 1) (']' :: rest)) (some []) rest := by
  rw [readItems, skipBlanks_cons (by decide)]
  rfl

theorem readItems_cons (hblanks : AllBlank blanks) (hc : isBlank c = false) (hend : c ≠ ']')
    (hitem : Yields (readValueIn steps (c :: text)) item others)
    (hitems : Yields (readMoreItems steps others) items rest) :
    Yields (readItems (steps + 1) (blanks ++ c :: text))
      (item.bind fun item => items.map (item :: ·)) rest := by
  rw [readItems, skipBlanks_append hblanks, skipBlanks_cons hc]
  split
  · next h => cases h
  · next h =>
      cases h
      exact absurd rfl hend
  · exact hitem.bind fun _ => hitems.map fun _ => rfl

theorem readMoreItems_nil (hblanks : AllBlank blanks) :
    Yields (readMoreItems (steps + 1) (blanks ++ ']' :: rest)) (some []) rest := by
  rw [readMoreItems, skipBlanks_append hblanks, skipBlanks_cons (by decide)]
  rfl

theorem readMoreItems_cons (hblanks : AllBlank blanks) (hc : isBlank c = false) (hend : c ≠ ']')
    (hitem : Yields (readValueIn steps (c :: text)) item others)
    (hitems : Yields (readMoreItems steps others) items rest) :
    Yields (readMoreItems (steps + 1) (',' :: (blanks ++ c :: text)))
      (item.bind fun item => items.map (item :: ·)) rest := by
  rw [readMoreItems, skipBlanks_cons (by decide)]
  split
  · next h => cases h
  · next h => exact absurd (List.cons.inj h).1 (by decide)
  · next h =>
      cases (List.cons.inj h).2
      rw [skipBlanks_append hblanks, skipBlanks_cons hc]
      split
      · next h => cases h
      · next h =>
          cases h
          exact absurd rfl hend
      · exact hitem.bind fun _ => hitems.map fun _ => rfl
  · next h => exact absurd rfl (h _)

end items

/-! ### Reading entries -/

section entries

variable {steps : Nat} {blanks before after quoted text others rest : List Char} {name : String}
  {value : Option Json} {entries : Option (List (String × Json))}

/-- Blanks in front of an entry, or of the end of an object, do not matter. -/
theorem readEntries_blanks (h : AllBlank blanks) (text : List Char) :
    readEntries steps (blanks ++ text) = readEntries steps text := by
  cases steps with
  | zero => rw [readEntries, readEntries]
  | succ steps => rw [readEntries, readEntries, skipBlanks_append h]

theorem readMoreEntries_blanks (h : AllBlank blanks) (text : List Char) :
    readMoreEntries steps (blanks ++ text) = readMoreEntries steps text := by
  cases steps with
  | zero => rw [readMoreEntries, readMoreEntries]
  | succ steps => rw [readMoreEntries, readMoreEntries, skipBlanks_append h]

theorem readColon_eq (hbefore : AllBlank before) (text : List Char) :
    readColon (before ++ ':' :: text) = .ok text := by
  rw [readColon, skipBlanks_append hbefore, skipBlanks_cons (by decide)]
  rfl

/-- An entry is its name, a colon and its value. -/
theorem yields_entry (hname : SpellsChars name.toList quoted) (hbefore : AllBlank before)
    (hafter : AllBlank after) (hvalue : Yields (readValueIn steps text) value others)
    (hentries : Yields (readMoreEntries steps others) entries rest) :
    Yields (do
        let (name, rest) ← unquote (quoted ++ '"' :: (before ++ ':' :: (after ++ text)))
        let (value, rest) ← readValueIn steps (← readColon rest)
        let (entries, rest) ← readMoreEntries steps rest
        return ((name, value) :: entries, rest))
      (value.bind fun value => entries.map ((name, value) :: ·)) rest := by
  have hread := yields_some_iff.mpr (hname.unquote_eq (before ++ ':' :: (after ++ text)))
  have hcolon : readColon (before ++ ':' :: (after ++ text)) = .ok (after ++ text) :=
    readColon_eq hbefore _
  rw [← readValueIn_blanks hafter] at hvalue
  rw [← Option.bind_some name fun name => value.bind fun value => entries.map ((name, value) :: ·)]
  refine hread.bind fun name => ?_
  dsimp only
  rw [hcolon]
  exact hvalue.bind fun _ => hentries.map fun _ => rfl

theorem readEntries_nil : Yields (readEntries (steps + 1) ('\x7d' :: rest)) (some []) rest := by
  rw [readEntries, skipBlanks_cons (by decide)]
  rfl

theorem readEntries_cons (hblanks : AllBlank blanks) (hname : SpellsString name quoted)
    (hbefore : AllBlank before) (hafter : AllBlank after)
    (hvalue : Yields (readValueIn steps text) value others)
    (hentries : Yields (readMoreEntries steps others) entries rest) :
    Yields (readEntries (steps + 1)
        (blanks ++ (quoted ++ (before ++ ':' :: (after ++ text)))))
      (value.bind fun value => entries.map ((name, value) :: ·)) rest := by
  cases hname with
  | quoted hname =>
      rw [readEntries, skipBlanks_append hblanks, List.cons_append, skipBlanks_cons (by decide),
        List.append_assoc]
      exact yields_entry hname hbefore hafter hvalue hentries

theorem readMoreEntries_nil (hblanks : AllBlank blanks) :
    Yields (readMoreEntries (steps + 1) (blanks ++ '\x7d' :: rest)) (some []) rest := by
  rw [readMoreEntries, skipBlanks_append hblanks, skipBlanks_cons (by decide)]
  rfl

theorem readMoreEntries_cons (hblanks : AllBlank blanks) (hname : SpellsString name quoted)
    (hbefore : AllBlank before) (hafter : AllBlank after)
    (hvalue : Yields (readValueIn steps text) value others)
    (hentries : Yields (readMoreEntries steps others) entries rest) :
    Yields (readMoreEntries (steps + 1)
        (',' :: (blanks ++ (quoted ++ (before ++ ':' :: (after ++ text))))))
      (value.bind fun value => entries.map ((name, value) :: ·)) rest := by
  rw [readMoreEntries, skipBlanks_cons (by decide)]
  split
  · next h => cases h
  · next h => exact absurd (List.cons.inj h).1 (by decide)
  · next h =>
      cases (List.cons.inj h).2
      cases hname with
      | quoted hname =>
          rw [skipBlanks_append hblanks, List.cons_append, skipBlanks_cons (by decide),
            List.append_assoc]
          exact yields_entry hname hbefore hafter hvalue hentries
  · next h => exact absurd rfl (h _)

end entries

/-! ### Texts -/

/-- A text is read as what its head yields if only blanks stand behind it. -/
theorem parse?_eq_ok_iff_of_yields {text : String} {result : Option Json} {rest : List Char}
    (h : Yields (readValue text.toList) result rest) (hrest : skipBlanks rest = []) {value : Json} :
    parse? text = .ok value ↔ result = some value := by
  rw [parse?_eq_ok_iff]
  constructor
  · rintro ⟨rest', hread, -⟩
    exact (h.eq_ok_iff.mp hread).1
  · intro hresult
    exact ⟨rest, h.eq_ok_iff.mpr ⟨hresult, rfl⟩, hrest⟩

end StrategyDoc.Json
