import Mathlib.Data.List.Forall2
import Mathlib.Data.List.Infix
import StrategyDoc.Proofs.Delimiters
import StrategyDoc.Proofs.ValidateCommand

/-! # Headers in a text

The part of a report that is about one document begins with a header, a line that starts with
a label.  A text that is printed in a report can hold a line break with a label behind it
(`Forges`), and then there is a header in the report that belongs to no document.  These
headers are all that can go wrong: if each part of a report begins with its own header, the
headers are those of the parts exactly if there are no others
(`forall₂_flatMap_iff`, `forged_eq_nil_iff`). -/

namespace StrategyDoc.Report

open CommandLine (lines lines_join)

/-! ### Labels -/

/-- The labels at the start of headers. -/
def labels : List (List Char) := ["OK    ".toList, "FAIL  ".toList]

/-- The line starts with a label. -/
def isHeader (line : List Char) : Bool := labels.any (·.isPrefixOf line)

/-- The headers of a text, in order. -/
def headers (text : String) : List (List Char) := (lines text).filter isHeader

/-- The text has a line break with a label behind it. -/
def Forges (text : List Char) : Prop := ∃ label ∈ labels, ('\n' :: label) <:+: text

instance (text : List Char) : Decidable (Forges text) :=
  inferInstanceAs (Decidable (∃ label ∈ labels, ('\n' :: label) <:+: text))

theorem newline_notMem_of_mem_labels : ∀ label ∈ labels, '\n' ∉ label := by decide

theorem isHeader_iff {line : List Char} :
    isHeader line = true ↔ ∃ label ∈ labels, label <+: line := by
  simp [isHeader]

/-! ### Parts of a text -/

/-- A character that a label can have. -/
def isInLabel (c : Char) : Bool := labels.any (·.contains c)

section parts

variable {before after : List Char}

theorem not_forges_of_notMem {text : List Char} (h : '\n' ∉ text) : ¬ Forges text := by
  rintro ⟨label, -, hoccurs⟩
  exact h (hoccurs.subset List.mem_cons_self)

theorem Forges.append_right (h : Forges before) (after : List Char) : Forges (before ++ after) := by
  obtain ⟨label, hlabel, hoccurs⟩ := h
  exact ⟨label, hlabel, List.infix_append_of_infix_left hoccurs⟩

theorem Forges.append_left (h : Forges after) (before : List Char) : Forges (before ++ after) := by
  obtain ⟨label, hlabel, hoccurs⟩ := h
  exact ⟨label, hlabel, List.infix_append_of_infix_right hoccurs⟩

theorem forges_append_of_notMem (h : '\n' ∉ before) :
    Forges (before ++ after) ↔ Forges after := by
  refine ⟨?_, fun hafter => hafter.append_left before⟩
  rintro ⟨label, hlabel, hoccurs⟩
  rcases List.infix_append_iff.mp hoccurs with hbefore | hafter | ⟨start, stop, heq, hstart, hstop⟩
  · exact absurd ⟨label, hlabel, hbefore⟩ (not_forges_of_notMem h)
  · exact ⟨label, hlabel, hafter⟩
  · cases start with
    | nil => exact ⟨label, hlabel, heq ▸ hstop.isInfix⟩
    | cons c start =>
        obtain ⟨rfl, -⟩ := List.cons.inj heq
        exact absurd (hstart.subset List.mem_cons_self) h

/-- No header is forged across a character that labels do not have. -/
theorem forges_append_of_stops (h : Stops isInLabel after) :
    Forges (before ++ after) ↔ Forges before ∨ Forges after := by
  refine ⟨?_, fun hpart => hpart.elim (·.append_right after) (·.append_left before)⟩
  rintro ⟨label, hlabel, hoccurs⟩
  rcases List.infix_append_iff.mp hoccurs with hbefore | hafter | ⟨start, stop, heq, hstart, hstop⟩
  · exact .inl ⟨label, hlabel, hbefore⟩
  · exact .inr ⟨label, hlabel, hafter⟩
  · cases stop with
    | nil =>
        rw [List.append_nil] at heq
        exact .inl ⟨label, hlabel, heq ▸ hstart.isInfix⟩
    | cons c stop =>
        cases start with
        | nil => exact .inr ⟨label, hlabel, heq ▸ hstop.isInfix⟩
        | cons d start =>
            -- the label goes on with a character that it cannot have
            obtain ⟨rest, rfl⟩ := hstop
            have hc : c ∈ label := by simp [(List.cons.inj heq).2]
            have hin : isInLabel c = true := List.any_eq_true.mpr ⟨label, hlabel, by simp [hc]⟩
            rw [stops_cons.mp h] at hin
            cases hin

end parts

/-! ### The first line and the others -/

/-- The first line of a text. -/
def firstLine (text : List Char) : List Char := (text.splitOn '\n').headD []

/-- The lines of a text behind the first. -/
def laterLines (text : List Char) : List (List Char) := (text.splitOn '\n').tail

section lines

variable {label : List Char}

theorem lines_eq (text : String) :
    lines text = firstLine text.toList :: laterLines text.toList := by
  obtain ⟨first, later, h⟩ := List.exists_cons_of_ne_nil (List.splitOn_ne_nil '\n' text.toList)
  rw [lines, firstLine, laterLines, h, List.headD_cons, List.tail_cons]

theorem firstLine_cons (c : Char) (text : List Char) :
    firstLine (c :: text) = if c = '\n' then [] else c :: firstLine text := by
  obtain ⟨first, later, h⟩ := List.exists_cons_of_ne_nil (List.splitOn_ne_nil '\n' text)
  unfold firstLine
  rw [List.splitOn_cons_eq_if_modifyHead, h]
  by_cases hc : c = '\n' <;> simp [hc]

theorem laterLines_cons (c : Char) (text : List Char) :
    laterLines (c :: text)
      = if c = '\n' then firstLine text :: laterLines text else laterLines text := by
  obtain ⟨first, later, h⟩ := List.exists_cons_of_ne_nil (List.splitOn_ne_nil '\n' text)
  unfold laterLines firstLine
  rw [List.splitOn_cons_eq_if_modifyHead, h]
  by_cases hc : c = '\n' <;> simp [hc]

theorem prefix_firstLine_iff (hlabel : '\n' ∉ label) (text : List Char) :
    label <+: firstLine text ↔ label <+: text := by
  induction text generalizing label with
  | nil => rfl
  | cons c text ih =>
      cases label with
      | nil => simp
      | cons d label =>
          obtain ⟨hd, hlabel⟩ := not_or.mp fun hmem => hlabel (List.mem_cons.mpr hmem)
          rw [firstLine_cons]
          by_cases hc : c = '\n'
          · simp [hc, Ne.symm hd]
          · simp [hc, ih hlabel]

theorem exists_mem_laterLines_iff (hlabel : '\n' ∉ label) (text : List Char) :
    (∃ line ∈ laterLines text, label <+: line) ↔ ('\n' :: label) <:+: text := by
  induction text with
  | nil => simp [laterLines]
  | cons c text ih =>
      rw [laterLines_cons, List.infix_cons_iff, List.cons_prefix_cons, ← ih]
      by_cases hc : c = '\n'
      · simp [hc, prefix_firstLine_iff hlabel]
      · simp [hc, Ne.symm hc]

end lines

/-! ### Forged headers -/

/-- The headers of a text that are not on its first line. -/
def forged (text : String) : List (List Char) := (laterLines text.toList).filter isHeader

/-- **A header behind the first line comes from a line break with a label behind it.** -/
theorem forged_eq_nil_iff (text : String) : forged text = [] ↔ ¬ Forges text.toList := by
  have hlines : (∃ line ∈ laterLines text.toList, isHeader line = true) ↔ Forges text.toList := by
    simp only [isHeader_iff, Forges]
    constructor
    · rintro ⟨line, hline, label, hlabel, hstart⟩
      have hfree := newline_notMem_of_mem_labels label hlabel
      exact ⟨label, hlabel, (exists_mem_laterLines_iff hfree _).mp ⟨line, hline, hstart⟩⟩
    · rintro ⟨label, hlabel, hoccurs⟩
      have hfree := newline_notMem_of_mem_labels label hlabel
      obtain ⟨line, hline, hstart⟩ := (exists_mem_laterLines_iff hfree _).mpr hoccurs
      exact ⟨line, hline, label, hlabel, hstart⟩
  rw [← hlines, forged, List.filter_eq_nil_iff]
  simp

theorem headers_eq_cons {text : String} (h : isHeader (firstLine text.toList) = true) :
    headers text = firstLine text.toList :: forged text := by
  rw [headers, lines_eq, List.filter_cons_of_pos h, forged]

theorem headers_eq_forged {text : String} (h : ¬ isHeader (firstLine text.toList) = true) :
    headers text = forged text := by
  rw [headers, lines_eq, List.filter_cons_of_neg h, forged]

/-- Texts that are ended by line breaks have their headers one after the other. -/
theorem headers_join (texts : List String) :
    headers (String.join (texts.map (· ++ "\n"))) = texts.flatMap headers := by
  have hempty : [[]].filter isHeader = [] := by decide
  rw [headers, lines_join, List.filter_append, List.filter_flatMap, hempty, List.append_nil]
  rfl

section entries

variable {α β : Type} {own : α → β} {others : α → List β}

theorem map_sublist_flatMap (items : List α) :
    (items.map own).Sublist (items.flatMap fun a => own a :: others a) := by
  induction items with
  | nil => exact .slnil
  | cons a items ih =>
      rw [List.map_cons, List.flatMap_cons, List.cons_append]
      exact (ih.trans (List.sublist_append_right _ _)).cons_cons (own a)

/-- Where each item has one entry that is its own and perhaps others, the entries are those of
the items one by one exactly if there are no others. -/
theorem forall₂_flatMap_iff {R : α → β → Prop} {items : List α} (hown : ∀ a ∈ items, R a (own a)) :
    List.Forall₂ R items (items.flatMap fun a => own a :: others a)
      ↔ ∀ a ∈ items, others a = [] := by
  constructor
  · intro h
    have hlength : ∀ items : List α, (items.flatMap fun a => own a :: others a).length
        = items.length + (items.flatMap others).length := by
      intro items
      induction items with
      | nil => rfl
      | cons a items ih =>
          simp only [List.flatMap_cons, List.length_append, List.length_cons, ih]
          omega
    have hnone : (items.flatMap others).length = 0 := by
      have hsame := h.length_eq
      rw [hlength] at hsame
      omega
    exact List.flatMap_eq_nil_iff.mp (List.length_eq_zero_iff.mp hnone)
  · intro h
    have hmap : (items.flatMap fun a => own a :: others a) = items.map own := by
      rw [List.map_eq_flatMap]
      exact List.flatMap_congr fun a ha => by rw [h a ha]
    rw [hmap, List.forall₂_map_right_iff, List.forall₂_same]
    exact hown

end entries

end StrategyDoc.Report
