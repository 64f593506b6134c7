import StrategyDoc.Proofs.PrintedTexts
import StrategyDoc.Proofs.Representation

/-! # Documents that forge nothing

Reports print texts of a document as they stand: its name and author, the tickers of its
instruments, names of members and functions, and values that are not allowed.  Whatever else
they print is on one line.  A document therefore forges no header if none of its texts does
(`Verdict.not_forges_of_harmless`).  A ticker has a blank behind it in a report, which can be
the last character of a label, so the texts must be harmless with a blank behind them. -/

namespace StrategyDoc

open Report (Forges not_forges_of_notMem forges_append_of_notMem forges_append_of_stops isInLabel)

/-! ### The texts of a document -/

namespace Json

mutual

/-- The strings in a value and the names of its members. -/
def texts : Json → List String
  | .string s => [s]
  | .array items => textsOfItems items
  | .object members => textsOfMembers members
  | _ => []

def textsOfItems : List Json → List String
  | [] => []
  | item :: rest => item.texts ++ textsOfItems rest

def textsOfMembers : List (String × Json) → List String
  | [] => []
  | (name, value) :: rest => name :: (value.texts ++ textsOfMembers rest)

end

theorem mem_textsOfItems {text : String} {items : List Json} :
    text ∈ textsOfItems items ↔ ∃ item ∈ items, text ∈ item.texts := by
  induction items with
  | nil => simp [textsOfItems]
  | cons item rest ih => simp [textsOfItems, ih]

theorem mem_textsOfMembers {text : String} {members : List (String × Json)} :
    text ∈ textsOfMembers members ↔ ∃ m ∈ members, text = m.1 ∨ text ∈ m.2.texts := by
  induction members with
  | nil => simp [textsOfMembers]
  | cons m rest ih => simp [textsOfMembers, ih, or_assoc]

end Json

/-- The text forges nothing, even with a blank behind it. -/
def Report.Harmless (text : String) : Prop := ¬ Forges (text.toList ++ [' '])

instance (text : String) : Decidable (Report.Harmless text) :=
  inferInstanceAs (Decidable (¬ Forges (text.toList ++ [' '])))

theorem Report.Harmless.not_forges {text : String} (h : Harmless text) : ¬ Forges text.toList :=
  fun hforges => h (hforges.append_right [' '])

/-- All texts of the value are harmless. -/
def Json.Harmless (value : Json) : Prop := ∀ text ∈ value.texts, Report.Harmless text

instance (value : Json) : Decidable value.Harmless :=
  inferInstanceAs (Decidable (∀ text ∈ value.texts, Report.Harmless text))

namespace Json.Harmless

variable {items : List Json} {members : List (String × Json)}

theorem text {s : String} (h : (Json.string s).Harmless) : Report.Harmless s :=
  h s List.mem_cons_self

theorem item (h : (Json.array items).Harmless) {item : Json} (hitem : item ∈ items) :
    item.Harmless :=
  fun text htext => h text (mem_textsOfItems.mpr ⟨item, hitem, htext⟩)

theorem name (h : (Json.object members).Harmless) {name : String}
    (hname : name ∈ members.map (·.1)) : Report.Harmless name := by
  obtain ⟨m, hm, rfl⟩ := List.mem_map.mp hname
  exact h m.1 (mem_textsOfMembers.mpr ⟨m, hm, .inl rfl⟩)

theorem member (h : (Json.object members).Harmless) {name : String} {value : Json}
    (hmember : Json.member? name members = some value) : value.Harmless :=
  fun text htext =>
    h text (mem_textsOfMembers.mpr ⟨(name, value), Json.mem_of_member? hmember, .inr htext⟩)

end Json.Harmless

/-! ### Messages -/

theorem newline_notMem_append {s t : String} (hs : '\n' ∉ s.toList) (ht : '\n' ∉ t.toList) :
    '\n' ∉ (s ++ t).toList := by
  simp [hs, ht]

theorem newline_notMem_numeral (n : Nat) : '\n' ∉ (toString n).toList := by
  have hdigits := newline_notMem_toDigits (b := 10) (by decide) (by decide) n
  simpa [toString, Nat.repr] using hdigits

theorem newline_notMem_expectation (expected : Expectation) : '\n' ∉ expected.text.toList := by
  cases expected <;> decide

theorem Json.newline_notMem_inWords (value : Json) : '\n' ∉ value.inWords.toList := by
  cases value <;> (rw [inWords]; decide)

/-- A message of one line forges nothing. -/
theorem forges_unmarked {message : String} (h : '\n' ∉ message.toList) :
    Forges message.toList ↔ ∃ text ∈ [], Forges (String.toList text) := by
  simp [not_forges_of_notMem h]

/-- A message with one text between parts of one line forges what the text forges. -/
theorem forges_marked (start marked stop : String) (hstart : '\n' ∉ start.toList)
    (hstop : '\n' ∉ stop.toList) (hstops : Stops isInLabel stop.toList) :
    Forges (start ++ marked ++ stop).toList ↔ ∃ text ∈ [marked], Forges text.toList := by
  have hparts : (start ++ marked ++ stop).toList
      = start.toList ++ (marked.toList ++ stop.toList) := by
    rw [String.append_assoc, String.toList_append, String.toList_append]
  rw [hparts, forges_append_of_notMem hstart, forges_append_of_stops hstops]
  simp [not_forges_of_notMem hstop]

/-- The function that a value is said to have, where it should have been a conditional. -/
def Json.saidFunction : Json → List String
  | .object members =>
    match member? "function" members with
    | some (.string name) => [name]
    | _ => []
  | _ => []

theorem Json.Harmless.saidFunction {value : Json} (h : value.Harmless) :
    ∀ text ∈ value.saidFunction, Report.Harmless text := by
  cases value with
  | object members =>
      rw [Json.saidFunction]
      split
      · next name hname => exact List.forall_mem_singleton.mpr (h.member hname).text
      · exact nofun
  | _ => exact nofun

theorem Json.forges_nodeInWords (value : Json) :
    Forges value.nodeInWords.toList ↔ ∃ text ∈ value.saidFunction, Forges text.toList := by
  have hplain : ∀ found : Json, Forges found.inWords.toList
      ↔ ∃ text ∈ [], Forges (String.toList text) :=
    fun found => forges_unmarked found.newline_notMem_inWords
  cases value with
  | object members =>
      have hline : '\n' ∉ "an object without a function".toList := by decide
      rw [nodeInWords, saidFunction]
      cases member? "function" members with
      | none => exact forges_unmarked hline
      | some found =>
          cases found with
          | string name =>
              exact forges_marked "function '" name "'" (by decide) (by decide) (stops_cons.mpr rfl)
          | _ => exact forges_unmarked hline
  | null => exact hplain .null
  | bool value => exact hplain (.bool value)
  | number value => exact hplain (.number value)
  | string value => exact hplain (.string value)
  | array items => exact hplain (.array items)

namespace Defect

/-- The texts that a message mentions as they stand. -/
def mentions : Defect → List String
  | wrongSort .. => []
  | notIdentifier found => [found]
  | missingField name => [name]
  | unexpectedField name => [name]
  | unknownFunction name => [name]
  | notAllowed found allowed => found :: allowed
  | wrongLength .. => []
  | emptyBranch => []
  | notStrategy _ => []
  | notConditional found => found.saidFunction
  | tooDeep _ => []

theorem forges_message_notAllowed (found : String) (allowed : List String) :
    Forges (notAllowed found allowed).message.toList
      ↔ ∃ text ∈ found :: allowed, Forges text.toList := by
  have hmark : '\n' ∉ ['\''] := by decide
  have hbetween : '\n' ∉ '\'' :: " is not one of ".toList := by decide
  -- the mark ends what the text can forge, the rest of the words are before the row
  have hsplit : "' is not one of ".toList = '\'' :: " is not one of ".toList := by decide
  have hrow := toList_intercalate id allowed
  rw [List.map_id] at hrow
  have hmessage : (notAllowed found allowed).message
      = "'" ++ found ++ "' is not one of " ++ ", ".intercalate allowed := rfl
  have hparts : (notAllowed found allowed).message.toList
      = ['\''] ++ (found.toList ++ '\'' :: (" is not one of ".toList ++ row id allowed)) := by
    rw [hmessage, String.toList_append, String.toList_append, String.toList_append, hsplit, hrow,
      List.append_assoc, List.append_assoc]
    rfl
  rw [hparts, forges_append_of_notMem hmark, forges_append_of_stops (stops_cons.mpr rfl),
    ← List.cons_append, forges_append_of_notMem hbetween, forges_row, List.exists_mem_cons_iff]
  rfl

/-- A message forges what the texts forge that it mentions. -/
theorem forges_message (defect : Defect) :
    Forges defect.message.toList ↔ ∃ text ∈ defect.mentions, Forges text.toList := by
  cases defect with
  | wrongSort expected found =>
      exact forges_unmarked (newline_notMem_append (newline_notMem_append
        (newline_notMem_append (by decide) (newline_notMem_expectation expected)) (by decide))
        found.newline_notMem_inWords)
  | notIdentifier found =>
      exact forges_marked "expected an identifier, found '" found "'"
        (by decide) (by decide) (stops_cons.mpr rfl)
  | missingField name =>
      exact forges_marked "missing required field '" name "'"
        (by decide) (by decide) (stops_cons.mpr rfl)
  | unexpectedField name =>
      exact forges_marked "field '" name "' is not part of this contract"
        (by decide) (by decide) (stops_cons.mpr rfl)
  | unknownFunction name =>
      exact forges_marked "unknown function '" name "'"
        (by decide) (by decide) (stops_cons.mpr rfl)
  | notAllowed found allowed => exact forges_message_notAllowed found allowed
  | wrongLength expected found =>
      exact forges_unmarked (newline_notMem_append (newline_notMem_append
        (newline_notMem_append (by decide) (newline_notMem_numeral expected)) (by decide))
        (newline_notMem_numeral found))
  | emptyBranch =>
      have hline : '\n' ∉ "expected at least 1 action, found 0".toList := by decide
      exact forges_unmarked hline
  | notStrategy found =>
      exact forges_unmarked (newline_notMem_append (by decide) found.newline_notMem_inWords)
  | notConditional found =>
      have hstart : '\n' ∉
          ("strategy root must be an `" ++ conditionalWord ++ "` conditional, found ").toList := by
        decide
      have hmessage : (notConditional found).message
          = "strategy root must be an `" ++ conditionalWord ++ "` conditional, found "
            ++ found.nodeInWords := rfl
      rw [hmessage, String.toList_append, forges_append_of_notMem hstart]
      exact found.forges_nodeInWords
  | tooDeep limit =>
      exact forges_unmarked (newline_notMem_append (by decide) (newline_notMem_numeral limit))

end Defect

/-! ### Refused documents -/

/-- Words of letters, digits and underscores forge nothing. -/
theorem IsVariableName.not_forges {name : String} (h : IsVariableName name) :
    ¬ Forges name.toList :=
  not_forges_of_notMem (newline_notMem_of_isNamePart h.isNamePart_of_mem)

namespace Diagnostic

theorem not_forges_under_field {d : Diagnostic} {name : String} (hname : ¬ Forges name.toList)
    (h : ¬ Forges d.text.toList) : ¬ Forges (d.under (.field name)).text.toList := by
  have hnames : (d.under (.field name)).path.names = name :: d.path.names := rfl
  rw [forges_text] at h ⊢
  rw [hnames, List.exists_mem_cons_iff, or_assoc, not_or]
  exact ⟨hname, h⟩

theorem not_forges_under_index {d : Diagnostic} {i : Nat} (h : ¬ Forges d.text.toList) :
    ¬ Forges (d.under (.index i)).text.toList := by
  have hnames : (d.under (.index i)).path.names = d.path.names := rfl
  rw [forges_text] at h ⊢
  rw [hnames]
  exact h

theorem not_forges_diagnostic {defect : Defect}
    (h : ∀ text ∈ defect.mentions, ¬ Forges text.toList) :
    ¬ Forges defect.diagnostic.text.toList := by
  rw [forges_text]
  rintro (⟨name, hname, -⟩ | hmessage)
  · cases hname
  · obtain ⟨text, htext, hforges⟩ := defect.forges_message.mp hmessage
    exact h text htext hforges

theorem not_forges_of_mentions_eq_nil {defect : Defect} (h : defect.mentions = []) :
    ¬ Forges defect.diagnostic.text.toList := by
  refine not_forges_diagnostic ?_
  rw [h]
  exact List.forall_mem_nil _

end Diagnostic

theorem FieldKind.legible_bare {kind : FieldKind} (h : kind.Legible = true) :
    kind.bare.Legible = true := by
  induction kind using FieldKind.bare.induct with
  | case1 inner ih =>
      rw [FieldKind.Legible] at h
      exact ih h
  | case2 kind hkind =>
      rw [FieldKind.bare.eq_2 kind hkind]
      exact h

/-- What is asked for in a slot is made of names and words of the catalog. -/
theorem Declares.legible {role : Role} {members : List (String × Json)} {slots : List Slot}
    {slot : Slot} (h : Declares role members slots) (hrole : role.kind.Legible = true)
    (hslot : slot ∈ slots) : slot.role.kind.Legible = true := by
  have hspecs : ∀ {specs : List FieldSpec}, FieldKind.AllLegible specs = true →
      slot ∈ specs.map Slot.ofSpec → slot.role.kind.Legible = true := by
    rintro specs hlegible hslot
    obtain ⟨spec, hspec, rfl⟩ := List.mem_map.mp hslot
    exact FieldKind.legible_bare (FieldKind.legible_of_mem hlegible hspec).2
  cases h with
  | document =>
      have hall : ∀ slot ∈ documentSlots, slot.role.kind.Legible = true := by
        simp only [documentSlots, List.forall_mem_cons]
        exact ⟨rfl, rfl, rfl, nofun⟩
      exact hall slot hslot
  | conditional =>
      have hall : ∀ slot ∈ conditionalSlots, slot.role.kind.Legible = true := by
        simp only [conditionalSlots, List.forall_mem_cons]
        exact ⟨rfl, rfl, rfl, rfl, nofun⟩
      exact hall slot hslot
  | call hcontract =>
      rcases List.mem_cons.mp hslot with rfl | hslot
      · rfl
      · exact hspecs (Catalog.allLegible_fields hcontract) hslot
  | shape =>
      rw [Role.kind, FieldKind.Legible] at hrole
      exact hspecs hrole hslot

section reports

variable {policy : Policy} {place : Place}

/-- What does not fit is described by texts of the value and by words of the catalog. -/
theorem Misfit.not_forges {d : Diagnostic} (h : Misfit policy place d)
    (hrole : place.role.kind.Legible = true) (hvalue : place.value.Harmless) :
    ¬ Forges d.text.toList := by
  have hfunction := isVariableName_function.not_forges
  cases h with
  | tooDeep => exact Diagnostic.not_forges_of_mentions_eq_nil rfl
  | wrongSort => exact Diagnostic.not_forges_of_mentions_eq_nil rfl
  | notIdentifier =>
      exact Diagnostic.not_forges_diagnostic (List.forall_mem_singleton.mpr hvalue.text.not_forges)
  | notAllowed =>
      have hwords := List.all_eq_true.mp hrole
      refine Diagnostic.not_forges_diagnostic
        (List.forall_mem_cons.mpr ⟨hvalue.text.not_forges, fun word hword => ?_⟩)
      exact not_forges_of_notMem
        (newline_notMem_of_isNamePart (List.all_eq_true.mp (hwords word hword)))
  | wrongLength => exact Diagnostic.not_forges_of_mentions_eq_nil rfl
  | emptyBranch => exact Diagnostic.not_forges_of_mentions_eq_nil rfl
  | noMarker =>
      exact Diagnostic.not_forges_under_field hfunction
        (Diagnostic.not_forges_diagnostic (List.forall_mem_singleton.mpr hfunction))
  | wrongMarker =>
      exact Diagnostic.not_forges_under_field hfunction
        (Diagnostic.not_forges_of_mentions_eq_nil rfl)
  | unknownFunction hname =>
      have hmarker := (hvalue.member hname).text.not_forges
      exact Diagnostic.not_forges_diagnostic (List.forall_mem_singleton.mpr hmarker)
  | notStrategy => exact Diagnostic.not_forges_of_mentions_eq_nil rfl
  | notConditional =>
      exact Diagnostic.not_forges_diagnostic fun text htext =>
        (hvalue.saidFunction text htext).not_forges

/-- **A harmless value is refused in harmless words.** -/
theorem Reports.not_forges {ds : List Diagnostic} (h : Reports policy place ds)
    (hplace : place.role.InCatalog) (hrole : place.role.kind.Legible = true)
    (hvalue : place.value.Harmless) : ∀ d ∈ ds, ¬ Forges d.text.toList := by
  -- what is asked for stays legible and the texts of a part are texts of the whole, so both
  -- hypotheses hold of every part
  induction h with
  | nothing => exact nofun
  | misfit h => exact List.forall_mem_singleton.mpr (h.not_forges hrole hvalue)
  | items _ _ ih =>
      intro d hd
      obtain ⟨i, item, hitem, e, he, rfl⟩ := Validation.mem_itemErrors.mp hd
      have hmem := List.mem_of_getElem? hitem
      exact Diagnostic.not_forges_under_index
        (ih item hmem (.of_shapes_eq_nil rfl) rfl (hvalue.item hmem) e he)
  | fields hslots _ _ ih =>
      intro d hd
      rcases List.mem_append.mp hd with hd | hd
      · obtain ⟨slot, hslot, hd⟩ := List.mem_flatMap.mp hd
        have hname := (hslots.isVariableName hplace hslot).not_forges
        rcases Validation.mem_slotErrors.mp hd with ⟨value, hmember, e, he, rfl⟩ | ⟨_, _, rfl⟩
        · exact Diagnostic.not_forges_under_field hname
            (ih slot hslot value hmember (hslots.inCatalog hplace hslot)
              (hslots.legible hrole hslot) (hvalue.member hmember) e he)
        · exact Diagnostic.not_forges_under_field hname
            (Diagnostic.not_forges_diagnostic (List.forall_mem_singleton.mpr hname))
      · obtain ⟨_, name, hmem, _, rfl⟩ := Validation.mem_undeclared.mp hd
        have hname := (hvalue.name hmem).not_forges
        exact Diagnostic.not_forges_under_field hname
          (Diagnostic.not_forges_diagnostic (List.forall_mem_singleton.mpr hname))

end reports

/-! ### Accepted documents -/

/-- A ticker has a blank behind it. -/
theorem Instrument.forges_text (i : Instrument) :
    Forges i.text.toList ↔ ¬ Report.Harmless i.ticker := by
  have hclass : '\n' ∉ '(' :: (i.assetClass.name.toList ++ [')']) := by
    cases i.assetClass <;> decide
  have hparts : i.text.toList
      = (i.ticker.toList ++ [' ']) ++ '(' :: (i.assetClass.name.toList ++ [')']) := by
    simp [text]
  rw [hparts, forges_append_of_stops (stops_cons.mpr rfl), Report.Harmless, not_not]
  exact or_iff_left (not_forges_of_notMem hclass)

section accepted

variable {strict : Bool}

/-- A field that is found is represented by a member. -/
theorem FieldsRepresent.exists_member? {specs : List FieldSpec} {members : List (String × Json)}
    {fields : List (String × FieldValue)} {name : String} {v : FieldValue} :
    FieldsRepresent strict specs members fields → FieldValue.find? name fields = some v →
      ∃ kind value, Json.member? name members = some value ∧ FieldRepresents strict kind value v
  | .nil, h => nomatch h
  | .skip _ _ hfields, h => hfields.exists_member? h
  | .take hpresent hvalue hfields, h => by
      rw [FieldValue.find?] at h
      split at h
      · next hname =>
          cases h
          exact ⟨_, _, hname ▸ hpresent, hvalue⟩
      · exact hfields.exists_member? h

theorem FieldRepresents.exists_object {kind : FieldKind} {value : Json}
    {fields : List (String × FieldValue)} :
    FieldRepresents strict kind value (.shape fields) →
      ∃ specs members, value = .object members ∧ FieldsRepresent strict specs members fields
  | .shape hfields _ => ⟨_, _, rfl, hfields⟩
  | .optional h => h.exists_object

theorem FieldRepresents.eq_string {kind : FieldKind} {value : Json} {v : FieldValue} {s : String} :
    FieldRepresents strict kind value v → v.string? = some s → value = .string s
  | .expression _, h => nomatch h
  | .sequence _ _, h => nomatch h
  | .choice _, h => congrArg Json.string (Option.some.inj h)
  | .text, h => congrArg Json.string (Option.some.inj h)
  | .identifier _, h => congrArg Json.string (Option.some.inj h)
  | .shape _ _, h => nomatch h
  | .optional hv, h => hv.eq_string h

theorem Instrument.exists_ticker {fields : List (String × FieldValue)} {i : Instrument}
    (h : Instrument.ofFields? fields = some i) :
    ∃ v, FieldValue.find? "ticker" fields = some v ∧ v.string? = some i.ticker := by
  unfold ofFields? at h
  obtain ⟨_, _, h⟩ := Option.bind_eq_some_iff.mp h
  obtain ⟨_, _, h⟩ := Option.bind_eq_some_iff.mp h
  obtain ⟨v, hv, h⟩ := Option.bind_eq_some_iff.mp h
  obtain ⟨ticker, hticker, h⟩ := Option.bind_eq_some_iff.mp h
  obtain ⟨_, _, h⟩ := Option.bind_eq_some_iff.mp h
  obtain ⟨_, _, h⟩ := Option.bind_eq_some_iff.mp h
  obtain ⟨_, _, h⟩ := Option.bind_eq_some_iff.mp h
  cases h
  exact ⟨v, hv, hticker⟩

/-- The ticker of an instrument is a text of the document. -/
theorem FieldsRepresent.harmless_ticker {specs : List FieldSpec} {members : List (String × Json)}
    {fields : List (String × FieldValue)} {i : Instrument}
    (h : FieldsRepresent strict specs members fields) (hi : Instrument.ofCall? fields = some i)
    (hmembers : (Json.object members).Harmless) : Report.Harmless i.ticker := by
  unfold Instrument.ofCall? at hi
  split at hi
  · next inner hinner =>
      obtain ⟨kind, value, hmember, hvalue⟩ := h.exists_member? hinner
      obtain ⟨_, parts, rfl, hparts⟩ := hvalue.exists_object
      obtain ⟨v, hv, hticker⟩ := Instrument.exists_ticker hi
      obtain ⟨_, written, hwritten, hrepresents⟩ := hparts.exists_member? hv
      cases hrepresents.eq_string hticker
      exact ((hmembers.member hmember).member hwritten).text
  · cases hi

theorem Expression.forall_mem_carried_conditional {p : Instrument → Prop} {condition : Expression}
    {thenBranch : List Expression} {elseBranch : Option (List Expression)}
    (hcondition : ∀ i ∈ condition.carried, p i) (hthen : ∀ i ∈ carriedByAll thenBranch, p i)
    (helse : ∀ es, elseBranch = some es → ∀ i ∈ carriedByAll es, p i) :
    ∀ i ∈ (conditional condition thenBranch elseBranch).carried, p i := by
  have hfirst := List.forall_mem_append.mpr ⟨hcondition, hthen⟩
  cases elseBranch with
  | none => exact hfirst
  | some es => exact List.forall_mem_append.mpr ⟨hfirst, helse es rfl⟩

mutual

theorem Represents.harmless_tickers {value : Json} {e : Expression} :
    Represents strict value e → value.Harmless → ∀ i ∈ e.carried, Report.Harmless i.ticker
  | .number, _ => nofun
  | .call _ _ hfields _, h =>
      List.forall_mem_append.mpr
        ⟨fun _ hi => hfields.harmless_ticker (Option.mem_toList.mp hi) h,
          hfields.harmless_tickers h⟩
  | .conditional _ hif hcondition hthen hthenBranch helse _, h =>
      Expression.forall_mem_carried_conditional (hcondition.harmless_tickers (h.member hif))
        (hthenBranch.harmless_tickers (h.member hthen))
        (helse.harmless_tickers fun _ hmember => h.member hmember)

theorem ItemsRepresent.harmless_tickers {items : List Json} {es : List Expression} :
    ItemsRepresent strict items es → (Json.array items).Harmless →
      ∀ i ∈ Expression.carriedByAll es, Report.Harmless i.ticker
  | .nil, _ => nofun
  | .cons hitem hitems, h =>
      List.forall_mem_append.mpr ⟨hitem.harmless_tickers (h.item List.mem_cons_self),
        hitems.harmless_tickers fun text htext => h text (List.mem_append_right _ htext)⟩

theorem ElseRepresents.harmless_tickers {value : Option Json} {branch : Option (List Expression)} :
    ElseRepresents strict value branch → (∀ v, value = some v → v.Harmless) →
      ∀ es, branch = some es → ∀ i ∈ Expression.carriedByAll es, Report.Harmless i.ticker
  | .absent, _ => nofun
  | .present hitems, h => fun _ hes => Option.some.inj hes ▸ hitems.harmless_tickers (h _ rfl)

theorem FieldRepresents.harmless_tickers {kind : FieldKind} {value : Json} {v : FieldValue} :
    FieldRepresents strict kind value v → value.Harmless →
      ∀ i ∈ v.carried, Report.Harmless i.ticker
  | .expression he, h => he.harmless_tickers h
  | .sequence _ hitems, h => hitems.harmless_tickers h
  | .choice _, _ => nofun
  | .text, _ => nofun
  | .identifier _, _ => nofun
  | .shape _ _, _ => nofun
  | .optional hv, h => hv.harmless_tickers h

theorem FieldsRepresent.harmless_tickers {specs : List FieldSpec} {members : List (String × Json)}
    {fields : List (String × FieldValue)} :
    FieldsRepresent strict specs members fields → (Json.object members).Harmless →
      ∀ i ∈ FieldValue.carriedByFields fields, Report.Harmless i.ticker
  | .nil, _ => nofun
  | .skip _ _ hfields, h => hfields.harmless_tickers h
  | .take hpresent hvalue hfields, h =>
      List.forall_mem_append.mpr
        ⟨hvalue.harmless_tickers (h.member hpresent), hfields.harmless_tickers h⟩

end

/-- **What a report shows of an accepted document are texts of the document.** -/
theorem DocumentRepresents.not_forges {document : Json} {s : Strategy} (tree : Bool)
    (h : DocumentRepresents strict document s) (hdocument : document.Harmless) :
    ∀ text ∈ (Verdict.valid s).shown tree, ¬ Forges text.toList := by
  cases h with
  | intro hname hauthor hstrategy hroot _ =>
      have htickers := hroot.harmless_tickers (hdocument.member hstrategy)
      refine List.forall_mem_cons.mpr ⟨(hdocument.member hname).text.not_forges,
        List.forall_mem_cons.mpr ⟨(hdocument.member hauthor).text.not_forges, ?_⟩⟩
      intro text htext
      cases tree with
      | false => cases htext
      | true =>
          obtain ⟨i, hi, rfl⟩ := List.mem_map.mp htext
          rw [i.forges_text, not_not]
          exact htickers i (List.mem_eraseDups.mp hi)

end accepted

/-- **A report on a harmless document forges no header.** -/
theorem Verdict.not_forges_of_harmless (tree : Bool) (policy : Policy) {document : Json}
    (h : document.Harmless) :
    ∀ text ∈ (ofDocument policy document).shown tree, ¬ Forges text.toList := by
  have hreports := Validation.reports_ofJson?_strategy policy document
  rw [ofDocument]
  cases hresult : Strategy.ofJson? policy document with
  | ok s => exact (Strategy.ofJson?_eq_ok_iff.mp hresult).1.not_forges tree h
  | error errors =>
      rw [hresult] at hreports
      intro text htext hforges
      obtain ⟨d, hd, hforges⟩ := (forges_shown_invalid tree errors).mp ⟨text, htext, hforges⟩
      exact hreports.not_forges (.inl rfl) rfl h d hd hforges

end StrategyDoc
