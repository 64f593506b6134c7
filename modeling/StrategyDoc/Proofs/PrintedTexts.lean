import StrategyDoc.Proofs.Formulas
import StrategyDoc.Proofs.HeaderLines
import StrategyDoc.Proofs.Numerals
import StrategyDoc.Proofs.PathText

/-! # Texts that reports print

The report on a strategy shows its name, its author, and with the tree its formula and its
instruments; the report on a document that was refused shows the paths and messages of the
diagnostics.  Formulas are on one line, since the texts in them are quoted
(`Expression.Conformant.newline_notMem_text`).  Everything else is printed as it stands
(`Verdict.shown`), so the lines of a report forge headers exactly if one of these texts does
(`Report.forges_textLines`). -/

namespace StrategyDoc

open Report (Forges not_forges_of_notMem forges_append_of_notMem forges_append_of_stops isInLabel)

/-! ### Rows -/

section rows

variable {α : Type} {text : α → String} {as : List α}

theorem newline_notMem_rowAfter (h : ∀ a ∈ as, '\n' ∉ (text a).toList) :
    '\n' ∉ rowAfter text as := by
  induction as with
  | nil => nofun
  | cons a as ih =>
      obtain ⟨ha, has⟩ := List.forall_mem_cons.mp h
      simp [rowAfter, ha, ih has]

theorem newline_notMem_row (h : ∀ a ∈ as, '\n' ∉ (text a).toList) : '\n' ∉ row text as := by
  cases as with
  | nil => nofun
  | cons a as =>
      obtain ⟨ha, has⟩ := List.forall_mem_cons.mp h
      simp [row, ha, newline_notMem_rowAfter has]

theorem stops_rowAfter (as : List α) : Stops isInLabel (rowAfter text as) := by
  cases as with
  | nil => exact stops_nil
  | cons a as => exact stops_cons.mpr rfl

theorem forges_rowAfter (as : List α) :
    Forges (rowAfter text as) ↔ ∃ a ∈ as, Forges (text a).toList := by
  induction as with
  | nil => simp [rowAfter, not_forges_of_notMem]
  | cons a as ih =>
      have hcomma : '\n' ∉ [',', ' '] := by decide
      have hparts : rowAfter text (a :: as) = [',', ' '] ++ ((text a).toList ++ rowAfter text as) :=
        rfl
      rw [hparts, forges_append_of_notMem hcomma, forges_append_of_stops (stops_rowAfter as), ih]
      simp

theorem forges_row (as : List α) : Forges (row text as) ↔ ∃ a ∈ as, Forges (text a).toList := by
  cases as with
  | nil => simp [row, not_forges_of_notMem]
  | cons a as =>
      rw [row, forges_append_of_stops (stops_rowAfter as), forges_rowAfter]
      simp

end rows

/-! ### Formulas -/

theorem newline_notMem_of_isNamePart {word : List Char} (h : ∀ c ∈ word, isNamePart c = true) :
    '\n' ∉ word := by
  intro hmem
  exact absurd (h '\n' hmem) (by decide)

theorem newline_notMem_toDigits {b : Nat} (hb : 1 < b) (hbase : b ≤ 16) (n : Nat) :
    '\n' ∉ Nat.toDigits b n := by
  intro hmem
  obtain ⟨digit, hdigit, heq⟩ := exists_digit_of_mem_toDigits hb hmem
  have hall : ∀ digit < 16, '\n' ≠ Nat.digitChar digit := by decide
  exact hall digit (by omega) heq

namespace Text

theorem newline_notMem_displayChar (c : Char) : '\n' ∉ displayChar c := by
  have hcode := newline_notMem_toDigits (b := 16) (by decide) (by decide) c.toNat
  by_cases hnewline : c = '\n'
  · subst hnewline
    decide
  · unfold displayChar
    repeat' split
    all_goals simp [hcode, Ne.symm hnewline]

/-- **A quoted text is on one line.** -/
theorem newline_notMem_display (s : String) : '\n' ∉ (display s).toList := by
  have hchars : '\n' ∉ s.toList.flatMap displayChar := by
    rw [List.mem_flatMap]
    rintro ⟨c, -, hc⟩
    exact newline_notMem_displayChar c hc
  rw [toList_display]
  simp [hchars]

end Text

theorem Catalog.newline_notMem_name {contract : Contract} (h : contract ∈ all) :
    '\n' ∉ contract.name.toList := by
  have hall : ∀ contract ∈ all, '\n' ∉ contract.name.toList := by decide +kernel
  exact hall contract h

section formulas

open Expression FieldValue

variable {specs : List FieldSpec} {fields : List (String × FieldValue)}

theorem newline_notMem_argumentChars (h : ∀ f ∈ fields, '\n' ∉ (named f).toList) :
    '\n' ∉ argumentChars fields := by
  unfold argumentChars
  split
  · next items =>
      have hargs := h _ List.mem_cons_self
      rw [toList_named, display, texts_eq_map, String.toList_append, String.toList_append,
        toList_intercalate] at hargs
      exact fun hmem => hargs (by simp [hmem])
  · exact newline_notMem_row h

theorem newline_notMem_call {contract : Contract} (hcontract : contract ∈ Catalog.all)
    (h : ∀ f ∈ fields, '\n' ∉ (named f).toList) :
    '\n' ∉ (call contract.name fields).text.toList := by
  have hname := Catalog.newline_notMem_name hcontract
  have harguments := newline_notMem_argumentChars h
  rw [← List.append_nil (call contract.name fields).text.toList, text_call_append]
  simp [hname, harguments]

theorem newline_notMem_otherwiseChars {elseBranch : Option (List Expression)}
    (h : ∀ es, elseBranch = some es → ∀ e ∈ es, '\n' ∉ e.text.toList) :
    '\n' ∉ otherwiseChars elseBranch := by
  cases elseBranch with
  | none =>
      have hnone : otherwiseChars none = [] := rfl
      rw [hnone]
      exact List.not_mem_nil
  | some es =>
      have hrow := newline_notMem_row (h es rfl)
      have helse := otherwiseChars_some_append es []
      rw [List.append_nil] at helse
      rw [helse]
      simp [hrow]

theorem newline_notMem_conditional {condition : Expression} {thenBranch : List Expression}
    {elseBranch : Option (List Expression)} (hcondition : '\n' ∉ condition.text.toList)
    (hthen : ∀ e ∈ thenBranch, '\n' ∉ e.text.toList)
    (helse : ∀ es, elseBranch = some es → ∀ e ∈ es, '\n' ∉ e.text.toList) :
    '\n' ∉ (conditional condition thenBranch elseBranch).text.toList := by
  have hactions := newline_notMem_row hthen
  have hotherwise := newline_notMem_otherwiseChars helse
  rw [← List.append_nil (conditional condition thenBranch elseBranch).text.toList,
    text_conditional_append]
  simp [hcondition, hactions, hotherwise]

theorem newline_notMem_sequence {es : List Expression} (h : ∀ e ∈ es, '\n' ∉ e.text.toList) :
    '\n' ∉ (sequence es).display.toList := by
  have hrow := newline_notMem_row h
  rw [display, texts_eq_map, String.toList_append, String.toList_append, toList_intercalate]
  simp [hrow]

theorem newline_notMem_shape (h : ∀ f ∈ fields, '\n' ∉ (named f).toList) :
    '\n' ∉ (shape fields).display.toList := by
  have hrow := newline_notMem_row h
  rw [display, namedTexts_eq_map, String.toList_append, String.toList_append, toList_intercalate]
  simp [hrow]

theorem FieldsConform.newline_notMem_named (h : FieldsConform specs fields)
    (hspecs : FieldKind.AllLegible specs = true)
    (hvalues : ∀ spec ∈ specs, ∀ f ∈ fields, f.1 = spec.1 → '\n' ∉ f.2.display.toList) :
    ∀ f ∈ fields, '\n' ∉ (named f).toList := by
  intro f hf
  obtain ⟨spec, hspec, hname⟩ := List.mem_map.mp (h.fits f hf).1
  have hword := newline_notMem_of_isNamePart
    (isVariableName_of_fits hspecs (h.fits f hf)).isNamePart_of_mem
  have hdisplay := hvalues spec hspec f hf hname.symm
  rw [toList_named]
  simp [hword, hdisplay]

mutual

/-- **The formula of a conformant expression is on one line.** -/
theorem Expression.Conformant.newline_notMem_text {e : Expression} :
    e.Conformant → '\n' ∉ e.text.toList
  | .number n => by
      rw [text.eq_1, String.toList_ofList]
      exact Json.newline_notMem_text n
  | .call hcontract hfields =>
      newline_notMem_call hcontract (hfields.newline_notMem_named
        (Catalog.allLegible_fields hcontract)
        (hfields.newline_notMem_display (Catalog.allLegible_fields hcontract)))
  | .conditional hcondition hthen helse =>
      newline_notMem_conditional hcondition.newline_notMem_text
        (fun e he => (hthen e he).newline_notMem_text)
        fun es hes e he => (helse es hes e he).newline_notMem_text

theorem FieldValue.Conforms.newline_notMem_display {kind : FieldKind} {v : FieldValue}
    (hkind : kind.Legible = true) : v.Conforms kind → '\n' ∉ v.display.toList
  | .expression h => by
      rw [display]
      exact h.newline_notMem_text
  | .sequence _ hitems => newline_notMem_sequence fun e he => (hitems e he).newline_notMem_text
  | .choice h => by
      rw [FieldKind.Legible, List.all_eq_true] at hkind
      rw [display]
      exact newline_notMem_of_isNamePart (List.all_eq_true.mp (hkind _ h))
  | .text s => Text.newline_notMem_display s
  | .identifier _ => Text.newline_notMem_display _
  | .shape h => by
      rw [FieldKind.Legible] at hkind
      exact newline_notMem_shape (h.newline_notMem_named hkind (h.newline_notMem_display hkind))
  | .optional h => h.newline_notMem_display (by rwa [FieldKind.Legible] at hkind)

theorem FieldsConform.newline_notMem_display {specs : List FieldSpec}
    {fields : List (String × FieldValue)} (hspecs : FieldKind.AllLegible specs = true) :
    FieldsConform specs fields →
      ∀ spec ∈ specs, ∀ f ∈ fields, f.1 = spec.1 → '\n' ∉ f.2.display.toList
  | .intro _ _ _ hvalues => fun spec hspec f hf heq =>
      (hvalues spec hspec f hf heq).newline_notMem_display
        (FieldKind.legible_of_mem hspecs hspec).2

end

end formulas

/-! ### Paths and diagnostics -/

/-- The names of fields on a path. -/
def Path.names (path : Path) : List String :=
  path.filterMap fun
    | .field name => some name
    | .index _ => none

namespace Path

theorem stops_isInLabel_textAfter (path : Path) : Stops isInLabel (textAfter path).toList := by
  match path with
  | [] => exact stops_nil
  | .field name :: rest =>
      rw [toList_textAfter_field]
      exact stops_cons.mpr rfl
  | .index number :: rest =>
      rw [toList_textAfter_index]
      exact stops_cons.mpr rfl

theorem forges_textAfter (path : Path) :
    Forges (textAfter path).toList ↔ ∃ name ∈ path.names, Forges name.toList := by
  induction path with
  | nil => simp [textAfter, names, not_forges_of_notMem]
  | cons step rest ih =>
      cases step with
      | field name =>
          have hpoint : '\n' ∉ ['.'] := by decide
          have hparts : (textAfter (.field name :: rest)).toList
              = ['.'] ++ (name.toList ++ (textAfter rest).toList) :=
            toList_textAfter_field name rest
          have hnames : names (.field name :: rest) = name :: names rest := rfl
          rw [hparts, forges_append_of_notMem hpoint,
            forges_append_of_stops (stops_isInLabel_textAfter rest), ih, hnames]
          simp
      | index number =>
          have hnumber : '\n' ∉ '[' :: (Nat.toDigits 10 number ++ [']']) := by
            simp [newline_notMem_toDigits]
          have hparts : (textAfter (.index number :: rest)).toList
              = '[' :: (Nat.toDigits 10 number ++ [']']) ++ (textAfter rest).toList := by
            rw [toList_textAfter_index]
            simp
          have hnames : names (.index number :: rest) = names rest := rfl
          rw [hparts, forges_append_of_notMem hnumber, ih, hnames]

theorem forges_text (path : Path) :
    Forges path.text.toList ↔ ∃ name ∈ path.names, Forges name.toList := by
  match path with
  | [] =>
      have hroot : '\n' ∉ (text []).toList := by decide
      simp [names, not_forges_of_notMem hroot]
  | .field name :: rest =>
      have hpoint : '\n' ∉ ['.'] := by decide
      have hparts : (textAfter (.field name :: rest)).toList
          = ['.'] ++ (text (.field name :: rest)).toList := toList_textAfter_eq name rest
      rw [← forges_textAfter, hparts, forges_append_of_notMem hpoint]
  | .index number :: rest => exact forges_textAfter _

end Path

/-- A diagnostic forges what the names on its path and its message forge. -/
theorem Diagnostic.forges_text (d : Diagnostic) :
    Forges d.text.toList
      ↔ (∃ name ∈ d.path.names, Forges name.toList) ∨ Forges d.message.toList := by
  have hkind : '\n' ∉ ": ".toList ++ d.kind.name.toList ++ ": ".toList := by
    cases d.kind <;> decide
  have hstops : Stops isInLabel
      (": ".toList ++ d.kind.name.toList ++ ": ".toList ++ d.message.toList) :=
    stops_cons.mpr rfl
  have hparts : d.text.toList = d.path.text.toList
      ++ (": ".toList ++ d.kind.name.toList ++ ": ".toList ++ d.message.toList) := by
    simp [text, toString]
  rw [hparts, forges_append_of_stops hstops, forges_append_of_notMem hkind, Path.forges_text]

/-! ### Reports -/

/-- The texts of a verdict that a report for people prints as they stand. -/
def Verdict.shown (tree : Bool) : Verdict → List String
  | valid strategy =>
    strategy.name :: strategy.author :: if tree then strategy.instruments.map (·.text) else []
  | invalid errors => errors.flatMap fun d => d.path.names ++ [d.message]

theorem Verdict.forges_shown_invalid (tree : Bool) (errors : List Diagnostic) :
    (∃ text ∈ (invalid errors).shown tree, Forges text.toList)
      ↔ ∃ d ∈ errors, Forges d.text.toList := by
  simp only [shown, List.mem_flatMap, Diagnostic.forges_text]
  constructor
  · rintro ⟨text, ⟨d, hd, htext⟩, hforges⟩
    refine ⟨d, hd, ?_⟩
    rcases List.mem_append.mp htext with hname | hmessage
    · exact .inl ⟨text, hname, hforges⟩
    · exact .inr (List.mem_singleton.mp hmessage ▸ hforges)
  · rintro ⟨d, hd, ⟨name, hname, hforges⟩ | hforges⟩
    · exact ⟨name, ⟨d, hd, List.mem_append_left _ hname⟩, hforges⟩
    · exact ⟨d.message, ⟨d, hd, List.mem_append_right _ List.mem_cons_self⟩, hforges⟩

namespace Report

/-- The line with the label. -/
def heading (source : String) : Verdict → String
  | .valid strategy => s!"OK    {source}: '{strategy.name}' by {strategy.author}"
  | .invalid errors => s!"FAIL  {source}: {errors.length} error(s)"

/-- What stands below the heading. -/
def body (tree : Bool) : Verdict → List String
  | .valid strategy => if tree then treeLines strategy else []
  | .invalid errors => errors.map fun e => "      " ++ e.text

theorem textLines_eq (tree : Bool) (source : String) (verdict : Verdict) :
    textLines tree source verdict = heading source verdict :: body tree verdict := by
  cases verdict <;> rfl

section forges

variable {source : String} (hsource : '\n' ∉ source.toList)

include hsource

theorem forges_heading_valid (strategy : Strategy) :
    Forges (heading source (.valid strategy)).toList
      ↔ Forges strategy.name.toList ∨ Forges strategy.author.toList := by
  have hstart : '\n' ∉ "OK    ".toList ++ source.toList ++ ": '".toList := by
    simp [hsource]
  have hby : '\n' ∉ "' by ".toList := by decide
  have hstops : Stops isInLabel ("' by ".toList ++ strategy.author.toList) := stops_cons.mpr rfl
  have hparts : (heading source (.valid strategy)).toList
      = ("OK    ".toList ++ source.toList ++ ": '".toList)
        ++ (strategy.name.toList ++ ("' by ".toList ++ strategy.author.toList)) := by
    simp [heading, toString]
  rw [hparts, forges_append_of_notMem hstart, forges_append_of_stops hstops,
    forges_append_of_notMem hby]

theorem newline_notMem_heading_invalid (errors : List Diagnostic) :
    '\n' ∉ (heading source (.invalid errors)).toList := by
  have hcount := newline_notMem_toDigits (b := 10) (by decide) (by decide) errors.length
  simp [heading, toString, Nat.repr, hsource, hcount]

end forges

/-- A line below a heading forges what stands behind its margin. -/
theorem forges_margin (line : String) :
    Forges ("      " ++ line).toList ↔ Forges line.toList := by
  have hmargin : '\n' ∉ "      ".toList := by decide
  rw [String.toList_append, forges_append_of_notMem hmargin]

/-- The tree of a strategy forges what its instruments forge. -/
theorem forges_treeLines {strategy : Strategy} (h : strategy.Conformant) :
    (∃ line ∈ treeLines strategy, Forges line.toList)
      ↔ ∃ i ∈ strategy.instruments, Forges i.text.toList := by
  have hformula : ¬ Forges ("      " ++ strategy.root.text).toList := by
    rw [forges_margin]
    exact not_forges_of_notMem h.newline_notMem_text
  have hword : '\n' ∉ "      instruments: ".toList := by decide
  unfold treeLines
  split
  · next hnone =>
      simp only [hnone, List.exists_mem_cons_iff, hformula, List.not_mem_nil, false_and,
        exists_false, or_false]
  · have hrow : Forges
        ("      instruments: " ++ ", ".intercalate (strategy.instruments.map (·.text))).toList
          ↔ ∃ i ∈ strategy.instruments, Forges i.text.toList := by
      rw [String.toList_append, forges_append_of_notMem hword, toList_intercalate, forges_row]
    simp only [List.exists_mem_cons_iff, hformula, hrow, false_or, List.not_mem_nil, false_and,
      exists_false, or_false]

/-- **The lines of a report forge what the texts forge that are printed as they stand.** -/
theorem forges_textLines (tree : Bool) {source : String} {verdict : Verdict}
    (hsource : '\n' ∉ source.toList)
    (hconformant : ∀ strategy, verdict = .valid strategy → strategy.Conformant) :
    (∃ line ∈ textLines tree source verdict, Forges line.toList)
      ↔ ∃ text ∈ verdict.shown tree, Forges text.toList := by
  rw [textLines_eq]
  cases verdict with
  | valid strategy =>
      have htree : (∃ line ∈ body tree (.valid strategy), Forges line.toList)
          ↔ ∃ text ∈ if tree then strategy.instruments.map (·.text) else [],
            Forges text.toList := by
        cases tree with
        | false => simp [body]
        | true => simp [body, forges_treeLines (hconformant strategy rfl)]
      simp only [List.exists_mem_cons_iff, forges_heading_valid hsource, htree, Verdict.shown,
        or_assoc]
  | invalid errors =>
      have herrors : (∃ line ∈ body tree (.invalid errors), Forges line.toList)
          ↔ ∃ d ∈ errors, Forges d.text.toList := by
        simp only [body, List.mem_map, exists_exists_and_eq_and, forges_margin]
      rw [List.exists_mem_cons_iff, herrors, Verdict.forges_shown_invalid]
      exact or_iff_right (not_forges_of_notMem (newline_notMem_heading_invalid hsource errors))

end Report

end StrategyDoc
