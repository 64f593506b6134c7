import StrategyDoc.Proofs.HarmlessDocuments

/-! # Honest reports

A report on several documents is honest if its headers are those of the documents: one for each,
in order, which names the source and says whether the document is valid (`Report.Honest`).
Reports print texts of the documents as they stand, line breaks included.  A name in which
`OK    b.json` stands behind a line break thus puts a header of its own into the report
(`Report.not_honest_forgery`).  Such headers are only ever added: the headers of the documents
are all there, in order, and the report is honest exactly if no text that it shows forges one
(`Report.honest_iff_unforged`). -/

namespace StrategyDoc

theorem Verdict.conformant_of_ofDocument {policy : Policy} {document : Json} {strategy : Strategy}
    (h : ofDocument policy document = .valid strategy) : strategy.Conformant := by
  rw [ofDocument] at h
  cases hresult : Strategy.ofJson? policy document with
  | ok s =>
      rw [hresult] at h
      cases h
      exact Strategy.conformant_of_ofJson? hresult
  | error errors =>
      rw [hresult] at h
      cases h

namespace Report

/-! ### Honest headers -/

/-- The line says which source it is about and what came of the document. -/
structure HeaderOf (outcome : String × Verdict) (line : List Char) : Prop where
  valid : ("OK    " ++ outcome.1).toList <+: line ↔ outcome.2.isValid = true
  invalid : (s!"FAIL  {outcome.1}: {outcome.2.errors.length} error(s)").toList <+: line
    ↔ outcome.2.isValid = false

/-- The headers of the report are those of the outcomes, one for each. -/
def Honest (tree : Bool) (outcomes : List (String × Verdict)) : Prop :=
  List.Forall₂ HeaderOf outcomes (headers (renderAll (.text tree) outcomes))

/-! ### Headings -/

theorem heading_valid (source : String) (strategy : Strategy) :
    (heading source (.valid strategy)).toList
      = "OK    ".toList
        ++ (source.toList ++ (": '" ++ strategy.name ++ "' by " ++ strategy.author).toList) := by
  simp [heading, toString]

theorem heading_invalid (source : String) (errors : List Diagnostic) :
    (heading source (.invalid errors)).toList
      = "FAIL  ".toList ++ (source.toList ++ s!": {errors.length} error(s)".toList) := by
  simp [heading, toString]

theorem isHeader_heading (source : String) (verdict : Verdict) :
    isHeader (firstLine (heading source verdict).toList) = true := by
  have hlabelled : ∀ label ∈ labels, label <+: (heading source verdict).toList →
      isHeader (firstLine (heading source verdict).toList) = true := fun label hlabel hstart =>
    isHeader_iff.mpr ⟨label, hlabel,
      (prefix_firstLine_iff (newline_notMem_of_mem_labels label hlabel) _).mpr hstart⟩
  cases verdict with
  | valid strategy =>
      refine hlabelled "OK    ".toList List.mem_cons_self ?_
      rw [heading_valid]
      exact List.prefix_append _ _
  | invalid errors =>
      refine hlabelled "FAIL  ".toList (List.mem_cons_of_mem _ List.mem_cons_self) ?_
      rw [heading_invalid]
      exact List.prefix_append _ _

theorem headerOf_heading {source : String} (hsource : '\n' ∉ source.toList) (verdict : Verdict) :
    HeaderOf (source, verdict) (firstLine (heading source verdict).toList) := by
  have hok : '\n' ∉ ("OK    " ++ source).toList := newline_notMem_append (by decide) hsource
  cases verdict with
  | valid strategy =>
      -- the labels differ in their first letters
      have hother : ¬ (heading source (.invalid [])).toList
          <+: (heading source (.valid strategy)).toList := by
        rw [heading_invalid, heading_valid]
        exact fun hstart => absurd (List.cons_prefix_cons.mp hstart).1 (by decide)
      constructor
      · rw [prefix_firstLine_iff hok, heading_valid, String.toList_append, ← List.append_assoc]
        exact iff_of_true (List.prefix_append _ _) rfl
      · exact (prefix_firstLine_iff (newline_notMem_heading_invalid hsource []) _).trans
          (iff_of_false hother nofun)
  | invalid errors =>
      have hother : ¬ ("OK    " ++ source).toList
          <+: (heading source (.invalid errors)).toList := by
        rw [heading_invalid, String.toList_append]
        exact fun hstart => absurd (List.cons_prefix_cons.mp hstart).1 (by decide)
      constructor
      · exact (prefix_firstLine_iff hok _).trans (iff_of_false hother nofun)
      · exact (prefix_firstLine_iff (newline_notMem_heading_invalid hsource errors) _).trans
          (iff_of_true List.prefix_rfl rfl)

theorem exists_margin {tree : Bool} {verdict : Verdict} {line : String}
    (h : line ∈ body tree verdict) : ∃ rest, line = "      " ++ rest := by
  cases verdict with
  | valid strategy =>
      cases tree with
      | false => cases h
      | true =>
          change line ∈ treeLines strategy at h
          unfold treeLines at h
          split at h
          · exact ⟨_, List.mem_singleton.mp h⟩
          · rcases List.mem_pair.mp h with rfl | rfl
            · exact ⟨_, rfl⟩
            · exact ⟨"instruments: " ++ ", ".intercalate (strategy.instruments.map (·.text)), by
                rw [← String.append_assoc]
                rfl⟩
  | invalid errors =>
      obtain ⟨e, -, rfl⟩ := List.mem_map.mp h
      exact ⟨e.text, rfl⟩

theorem not_isHeader_body {tree : Bool} {verdict : Verdict} {line : String}
    (h : line ∈ body tree verdict) : ¬ isHeader (firstLine line.toList) = true := by
  obtain ⟨rest, rfl⟩ := exists_margin h
  rw [isHeader_iff]
  rintro ⟨label, hlabel, hstart⟩
  have hline := (prefix_firstLine_iff (newline_notMem_of_mem_labels label hlabel) _).mp hstart
  rw [String.toList_append] at hline
  rcases List.mem_pair.mp hlabel with rfl | rfl
  · exact absurd (List.cons_prefix_cons.mp hline).1 (by decide)
  · exact absurd (List.cons_prefix_cons.mp hline).1 (by decide)

/-! ### Reports on several documents -/

theorem endLine_join {texts : List String} (h : texts ≠ []) :
    endLine (String.join (texts.map (· ++ "\n"))) = String.join (texts.map (· ++ "\n")) := by
  rcases List.eq_nil_or_concat texts with hnil | ⟨before, last, rfl⟩
  · exact absurd hnil h
  · unfold endLine
    apply if_pos
    simp

theorem renderAll_text (tree : Bool) (outcomes : List (String × Verdict)) :
    renderAll (.text tree) outcomes
      = String.join ((outcomes.flatMap fun o => textLines tree o.1 o.2).map (· ++ "\n")) := by
  induction outcomes with
  | nil => rfl
  | cons o rest ih =>
      have hlines : textLines tree o.1 o.2 ≠ [] := by
        rw [textLines_eq]
        exact List.cons_ne_nil _ _
      have hfirst := endLine_join hlines
      have hcons : renderAll (.text tree) (o :: rest)
          = endLine (String.join ((textLines tree o.1 o.2).map (· ++ "\n")))
            ++ renderAll (.text tree) rest := by
        simp [renderAll, render, text]
      rw [hcons, hfirst, ih]
      simp

theorem headers_textLines (tree : Bool) (source : String) (verdict : Verdict) :
    (textLines tree source verdict).flatMap headers
      = firstLine (heading source verdict).toList
        :: (textLines tree source verdict).flatMap forged := by
  have hbody : (body tree verdict).flatMap headers = (body tree verdict).flatMap forged :=
    List.flatMap_congr fun line hline => headers_eq_forged (not_isHeader_body hline)
  rw [textLines_eq, List.flatMap_cons, List.flatMap_cons, hbody,
    headers_eq_cons (isHeader_heading source verdict), List.cons_append]

theorem headers_renderAll (tree : Bool) (outcomes : List (String × Verdict)) :
    headers (renderAll (.text tree) outcomes)
      = outcomes.flatMap fun o => firstLine (heading o.1 o.2).toList
        :: (textLines tree o.1 o.2).flatMap forged := by
  rw [renderAll_text, headers_join, List.flatMap_assoc]
  exact List.flatMap_congr fun o _ => headers_textLines tree o.1 o.2

/-- Reports are honest if and only if they show no text that forges a header. -/
theorem honest_iff (tree : Bool) {outcomes : List (String × Verdict)}
    (hsource : ∀ o ∈ outcomes, '\n' ∉ o.1.toList)
    (hconformant : ∀ o ∈ outcomes, ∀ strategy, o.2 = .valid strategy → strategy.Conformant) :
    Honest tree outcomes ↔ ∀ o ∈ outcomes, ∀ text ∈ o.2.shown tree, ¬ Forges text.toList := by
  have hown : ∀ o ∈ outcomes, HeaderOf o (firstLine (heading o.1 o.2).toList) :=
    fun o ho => headerOf_heading (hsource o ho) o.2
  have hothers : ∀ o ∈ outcomes, (textLines tree o.1 o.2).flatMap forged = []
      ↔ ∀ text ∈ o.2.shown tree, ¬ Forges text.toList := by
    intro o ho
    have hforges := forges_textLines tree (hsource o ho) (hconformant o ho)
    simp only [List.flatMap_eq_nil_iff, forged_eq_nil_iff]
    simpa using not_congr hforges
  rw [Honest, headers_renderAll, forall₂_flatMap_iff hown]
  exact forall₂_congr hothers

theorem exists_headers (tree : Bool) {outcomes : List (String × Verdict)}
    (hsource : ∀ o ∈ outcomes, '\n' ∉ o.1.toList) :
    ∃ own, List.Forall₂ HeaderOf outcomes own
      ∧ own.Sublist (headers (renderAll (.text tree) outcomes)) := by
  refine ⟨outcomes.map fun o => firstLine (heading o.1 o.2).toList, ?_, ?_⟩
  · rw [List.forall₂_map_right_iff, List.forall₂_same]
    exact fun o ho => headerOf_heading (hsource o ho) o.2
  · rw [headers_renderAll]
    exact map_sublist_flatMap outcomes

/-! ### Checks -/

/-- A document from a source that is checked under a policy. -/
structure Check where
  source : String
  policy : Policy
  document : Json

/-- The source with what came of the document. -/
def Check.outcome (check : Check) : String × Verdict :=
  (check.source, .ofDocument check.policy check.document)

/-- **A header that belongs to no document comes from a text of a document.**  Whatever the
documents are, each has its header in the report, in order.  There are no other headers exactly
if none of the texts that the report shows has a line break with a label behind it, and thus
whenever the documents are harmless. -/
theorem honest_iff_unforged (tree : Bool) {checks : List Check}
    (hsource : ∀ check ∈ checks, '\n' ∉ check.source.toList) :
    (∃ own, List.Forall₂ HeaderOf (checks.map Check.outcome) own
        ∧ own.Sublist (headers (renderAll (.text tree) (checks.map Check.outcome))))
      ∧ (Honest tree (checks.map Check.outcome)
        ↔ ∀ check ∈ checks, ∀ text ∈ check.outcome.2.shown tree, ¬ Forges text.toList)
      ∧ ((∀ check ∈ checks, check.document.Harmless) → Honest tree (checks.map Check.outcome)) := by
  have hsources : ∀ o ∈ checks.map Check.outcome, '\n' ∉ o.1.toList :=
    List.forall_mem_map.mpr hsource
  have hconformant : ∀ o ∈ checks.map Check.outcome, ∀ strategy, o.2 = .valid strategy →
      strategy.Conformant :=
    List.forall_mem_map.mpr fun check _ _ hvalid => Verdict.conformant_of_ofDocument hvalid
  have hhonest := honest_iff tree hsources hconformant
  rw [List.forall_mem_map] at hhonest
  refine ⟨exists_headers tree hsources, hhonest, fun hharmless => hhonest.mpr ?_⟩
  intro check hcheck
  exact Verdict.not_forges_of_harmless tree check.policy (hharmless check hcheck)

/-- The check of a strategy with the name. -/
def Check.named (source name : String) : Check where
  source := source
  policy := .default
  document := .object [("author", .string "Vader"), ("name", .string name),
    ("strategy", .object [("function", .string "ifthen"), ("if", .number (.integer 1)),
      ("then", .array [])])]

/-- The check of an object with one member, which is none that strategies have. -/
def Check.stray (source name : String) : Check where
  source := source
  policy := { Policy.default with strict := true }
  document := .object [(name, .null)]

/-- Two documents with line breaks in their texts. -/
def multiline : List Check := [.named "a.json" "Calm\nOK", .stray "b.json" "FAIL\n  OK  "]

/-- Line breaks alone do no harm. -/
theorem honest_multiline : (∀ check ∈ multiline, '\n' ∉ check.source.toList)
    ∧ (∀ check ∈ multiline, check.document.Harmless)
    ∧ Honest true (multiline.map Check.outcome)
    ∧ ∀ check ∈ multiline, ∀ text ∈ check.outcome.2.shown true, ¬ Forges text.toList := by
  have hsource : ∀ check ∈ multiline, '\n' ∉ check.source.toList := by decide
  have hharmless : ∀ check ∈ multiline, check.document.Harmless := by decide
  obtain ⟨-, hhonest, hunforged⟩ := honest_iff_unforged true hsource
  exact ⟨hsource, hharmless, hunforged hharmless, hhonest.mp (hunforged hharmless)⟩

/-- A strategy whose name says that the next document is valid, which it is not. -/
def forgery : List Check :=
  [.named "a.json" "Calm' by Vader\nOK    b.json: 'Calm", ⟨"b.json", .default, .null⟩]

/-- **A name can forge a header.**  There are three headers in the report on two documents. -/
theorem not_honest_forgery : (∀ check ∈ forgery, '\n' ∉ check.source.toList)
    ∧ headers (renderAll (.text false) (forgery.map Check.outcome))
      = ["OK    a.json: 'Calm' by Vader".toList, "OK    b.json: 'Calm' by Vader".toList,
          "FAIL  b.json: 1 error(s)".toList]
    ∧ ¬ Honest false (forgery.map Check.outcome) := by
  have hheaders : headers (renderAll (.text false) (forgery.map Check.outcome))
      = ["OK    a.json: 'Calm' by Vader".toList, "OK    b.json: 'Calm' by Vader".toList,
          "FAIL  b.json: 1 error(s)".toList] := by
    rw [headers_renderAll]
    decide +kernel
  refine ⟨by decide, hheaders, fun hhonest => ?_⟩
  have hlength := hhonest.length_eq
  rw [hheaders] at hlength
  exact absurd hlength (by decide)

end Report

end StrategyDoc
