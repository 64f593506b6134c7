import StrategyDoc.Proofs.Literals
import StrategyDoc.Proofs.Rereading
import StrategyDoc.Report

/-! # Reports that are read back

A JSON report without blanks is one line (`newline_notMem_compact`), so the reports on several
documents are as many lines (`splitOn_renderAll`).  Either layout is read as the same value
(`parse?_render`): its members say where the document came from and whether it is valid, and
hold the strategy or the diagnostics.  Nothing is lost on the way: the source and the verdict
are determined by that value (`parsed_injective`). -/

namespace StrategyDoc

/-! ### Lines -/

namespace Json

theorem toList_lineBreak_compact (depth : Nat) :
    (Layout.compact.lineBreak depth).toList = [] := rfl

theorem toList_colon_compact : Layout.compact.colon.toList = [':'] := rfl

/-- Texts on one line stay on one line when they are put in a row without blanks. -/
theorem newline_notMem_moreText (depth : Nat) {texts : List String}
    (h : ∀ text ∈ texts, '\n' ∉ text.toList) : '\n' ∉ Layout.compact.moreText depth texts := by
  induction texts with
  | nil => nofun
  | cons text texts ih =>
      obtain ⟨htext, htexts⟩ := List.forall_mem_cons.mp h
      have hmore := ih htexts
      rw [Layout.moreText_cons]
      simp [toList_lineBreak_compact, htext, hmore]

mutual

theorem newline_notMem_write (depth : Nat) : ∀ value : Json,
    '\n' ∉ (value.write .compact depth).toList
  | .null => by
      rw [toList_write_null]
      decide
  | .bool true => by
      rw [toList_write_true]
      decide
  | .bool false => by
      rw [toList_write_false]
      decide
  | .number n => by
      rw [toList_write_number]
      exact newline_notMem_text n
  | .string s => by
      rw [toList_write_string, ← quote]
      exact newline_notMem_quote s
  | .array [] => by
      rw [toList_write_array_nil]
      decide
  | .array (first :: others) => by
      have hfirst := newline_notMem_write (depth + 1) first
      have hothers := newline_notMem_moreText (depth + 1)
        (newline_notMem_writeItems (depth + 1) others)
      rw [toList_write_array_cons]
      simp [toList_lineBreak_compact, hfirst, hothers]
  | .object [] => by
      rw [toList_write_object_nil]
      decide
  | .object ((name, first) :: others) => by
      have hname := newline_notMem_quote name
      have hfirst := newline_notMem_write (depth + 1) first
      have hothers := newline_notMem_moreText (depth + 1)
        (newline_notMem_writeMembers (depth + 1) others)
      rw [toList_write_object_cons]
      simp [toList_lineBreak_compact, toList_colon_compact, hname, hfirst, hothers]

theorem newline_notMem_writeItems (depth : Nat) : ∀ items : List Json,
    ∀ text ∈ writeItems .compact depth items, '\n' ∉ text.toList
  | [] => nofun
  | first :: others => by
      rw [writeItems, List.forall_mem_cons]
      exact ⟨newline_notMem_write depth first, newline_notMem_writeItems depth others⟩

theorem newline_notMem_writeMembers (depth : Nat) : ∀ members : List (String × Json),
    ∀ text ∈ writeMembers .compact depth members, '\n' ∉ text.toList
  | [] => nofun
  | (name, first) :: others => by
      have hname := newline_notMem_quote name
      have hfirst := newline_notMem_write depth first
      rw [writeMembers, List.forall_mem_cons]
      refine ⟨?_, newline_notMem_writeMembers depth others⟩
      simp [toList_colon_compact, hname, hfirst]

end

/-- **A value without blanks is written on one line.** -/
theorem newline_notMem_compact (value : Json) : '\n' ∉ value.compact.toList :=
  newline_notMem_write 0 value

end Json

namespace Report

theorem endLine_eq {s : String} (h : '\n' ∉ s.toList) : endLine s = s ++ "\n" := by
  unfold endLine
  apply if_neg
  intro hlast
  exact h (List.mem_of_getLast? hlast)

theorem splitOn_renderAll (outcomes : List (String × Verdict)) :
    (renderAll (.json false) outcomes).toList.splitOn '\n'
      = outcomes.map (fun o => (render (.json false) o.1 o.2).toList) ++ [[]] := by
  induction outcomes with
  | nil => rfl
  | cons outcome rest ih =>
      have hline : '\n' ∉ (render (.json false) outcome.1 outcome.2).toList :=
        Json.newline_notMem_compact _
      have hcons : (renderAll (.json false) (outcome :: rest)).toList
          = (render (.json false) outcome.1 outcome.2).toList
            ++ '\n' :: (renderAll (.json false) rest).toList := by
        simp [renderAll, endLine_eq hline]
      rw [hcons, List.splitOn_append_cons_self_of_not_mem hline, ih, List.map_cons,
        List.cons_append]

end Report

/-! ### What a report is read as -/

/-- A diagnostic in a report that is read. -/
def Diagnostic.parsed (d : Diagnostic) : Json :=
  .object [
    ("kind", .string d.kind.name),
    ("message", .string d.message),
    ("path", d.path.toJson)]

/-- A report that is read. -/
def Report.parsed (source : String) : Verdict → Json
  | .valid strategy =>
    .object [
      ("ok", .bool true),
      ("source", .string source),
      ("value", strategy.toJson.sort)]
  | .invalid errors =>
    .object [
      ("errors", .array (errors.map Diagnostic.parsed)),
      ("ok", .bool false),
      ("source", .string source)]

theorem Json.sortItems_eq_map (items : List Json) : sortItems items = items.map sort := by
  induction items with
  | nil => rfl
  | cons item rest ih => rw [sortItems, ih, List.map_cons]

theorem Path.sort_toJson (path : Path) : path.toJson.sort = path.toJson := by
  rw [toJson, Json.sort, Json.sortItems_eq_map, List.map_map]
  congr 1
  apply List.map_congr_left
  intro step _
  cases step <;> rfl

theorem Diagnostic.sort_toJson (d : Diagnostic) : d.toJson.sort = d.parsed := by
  have hnames : ["kind", "message", "path"].Pairwise (· < ·) := by decide
  rw [toJson, Json.sort]
  simp only [Json.sortMembers, Json.sort, Path.sort_toJson]
  exact congrArg Json.object
    (Json.ofEntries_eq_of_perm (List.perm_append_singleton _ [_, _]).symm hnames)

theorem Diagnostic.sort_listToJson (ds : List Diagnostic) :
    (listToJson ds).sort = .array (ds.map parsed) := by
  rw [listToJson, Json.sort, Json.sortItems_eq_map, List.map_map]
  congr 1
  apply List.map_congr_left
  intro d _
  exact d.sort_toJson

theorem Report.sort_toJson (source : String) (verdict : Verdict) :
    (toJson source verdict).sort = parsed source verdict := by
  cases verdict with
  | valid strategy =>
      have hnames : ["ok", "source", "value"].Pairwise (· < ·) := by decide
      rw [toJson, Verdict.members, Json.sort]
      simp only [Json.sortMembers, Json.sort]
      exact congrArg Json.object (Json.ofEntries_eq_of_perm (List.Perm.swap _ _ _) hnames)
  | invalid errors =>
      have hnames : ["errors", "ok", "source"].Pairwise (· < ·) := by decide
      have herrors := Diagnostic.sort_listToJson errors
      rw [toJson, Verdict.members, Json.sort]
      simp only [Json.sortMembers, Json.sort, herrors]
      exact congrArg Json.object
        (Json.ofEntries_eq_of_perm (List.reverse_perm [_, _, _]).symm hnames)

/-! ### Reports that can be read back -/

/-- An integer that a text can denote. -/
def Json.Number.IsInteger : Json.Number → Prop
  | .integer value => InRange value
  | .float _ => False

/-- The numbers of items in the path are numbers that a text can denote. -/
def Path.InRange (path : Path) : Prop :=
  ∀ number : Nat, .index number ∈ path → Json.Number.InRange number

/-- A strategy that was read and has integers for its numbers, or any diagnostics. -/
def Verdict.Reportable : Verdict → Prop
  | .valid strategy =>
    (∃ policy document, Strategy.ofJson? policy document = .ok strategy)
      ∧ strategy.AllLiterals Json.Number.IsInteger
  | .invalid errors => ∀ d ∈ errors, d.path.InRange

theorem Json.Number.IsInteger.readsBack {n : Json.Number} (h : n.IsInteger) : n.ReadsBack := by
  cases n with
  | integer value => exact readsBack_integer h
  | float x => exact h.elim

theorem Path.allNumbers_toJson {path : Path} (h : path.InRange) :
    path.toJson.AllNumbers Json.Number.ReadsBack := by
  apply Json.allNumbersOfItems_iff.mpr
  intro item hitem
  obtain ⟨step, hstep, rfl⟩ := List.mem_map.mp hitem
  cases step with
  | field name => trivial
  | index number => exact Json.Number.readsBack_integer (h number hstep)

theorem Diagnostic.allNumbers_listToJson {ds : List Diagnostic} (h : ∀ d ∈ ds, d.path.InRange) :
    (listToJson ds).AllNumbers Json.Number.ReadsBack := by
  apply Json.allNumbersOfItems_iff.mpr
  intro item hitem
  obtain ⟨d, hd, rfl⟩ := List.mem_map.mp hitem
  exact ⟨Path.allNumbers_toJson (h d hd), trivial, trivial, trivial⟩

namespace Report

section reads

variable {source : String} {verdict : Verdict}

theorem allNumbers_toJson (h : verdict.Reportable) :
    (toJson source verdict).AllNumbers Json.Number.ReadsBack := by
  cases verdict with
  | valid strategy =>
      have hstrategy : strategy.toJson.AllNumbers Json.Number.ReadsBack :=
        (Strategy.allNumbers_toJson h.2).mono fun _ hn => hn.readsBack
      exact ⟨trivial, trivial, hstrategy, trivial⟩
  | invalid errors => exact ⟨trivial, trivial, Diagnostic.allNumbers_listToJson h, trivial⟩

/-- **A report in either layout is read as its members in order.** -/
theorem parse?_render (h : verdict.Reportable) (pretty : Bool) :
    Json.parse? (render (.json pretty) source verdict) = .ok (parsed source verdict) := by
  have hnumbers : (toJson source verdict).AllNumbers Json.Number.ReadsBack := allNumbers_toJson h
  rw [← sort_toJson]
  cases pretty with
  | false => exact Json.parse?_write Json.Layout.blank_compact hnumbers 0
  | true => exact Json.parse?_write Json.Layout.blank_indented hnumbers 0

end reads

end Report

/-! ### Nothing is lost -/

theorem Path.toJson_injective {path other : Path} (h : path.toJson = other.toJson) :
    path = other := by
  have hitems := Json.array.inj h
  apply List.map_injective_iff.mpr ?_ hitems
  intro step step' hstep
  cases step with
  | field name =>
      cases step' with
      | field name' => rw [Json.string.inj hstep]
      | index number' => cases hstep
  | index number =>
      cases step' with
      | field name' => cases hstep
      | index number' => rw [Int.ofNat.inj (Json.Number.integer.inj (Json.number.inj hstep))]

theorem Diagnostic.Kind.name_injective {kind other : Kind} (h : kind.name = other.name) :
    kind = other := by
  revert h
  cases kind <;> cases other <;> decide

theorem Diagnostic.parsed_injective {d other : Diagnostic} (h : d.parsed = other.parsed) :
    d = other := by
  obtain ⟨path, kind, message⟩ := d
  obtain ⟨path', kind', message'⟩ := other
  simp [parsed] at h
  obtain ⟨hkind, hmessage, hpath⟩ := h
  rw [Path.toJson_injective hpath, Kind.name_injective hkind, hmessage]

theorem Strategy.Conformant.eq_of_sort_toJson {s other : Strategy} (h : s.Conformant)
    (hother : other.Conformant) (heq : s.toJson.sort = other.toJson.sort) : s = other := by
  have hs : DocumentRepresents false s.toJson.sort s := h.represents
  rw [heq] at hs
  exact hs.unique hother.represents

/-- The source and the verdict are determined by the report that is read. -/
theorem Report.parsed_injective {source other : String} {verdict verdict' : Verdict}
    (h : verdict.Reportable) (h' : verdict'.Reportable)
    (heq : parsed source verdict = parsed other verdict') :
    source = other ∧ verdict = verdict' := by
  cases verdict with
  | valid s =>
      cases verdict' with
      | valid s' =>
          obtain ⟨policy, document, hread⟩ := h.1
          obtain ⟨policy', document', hread'⟩ := h'.1
          simp [parsed] at heq
          obtain ⟨hsource, hvalue⟩ := heq
          have hs := Strategy.Conformant.eq_of_sort_toJson
            (Strategy.conformant_of_ofJson? hread) (Strategy.conformant_of_ofJson? hread') hvalue
          exact ⟨hsource, congrArg Verdict.valid hs⟩
      | invalid errors => simp [parsed] at heq
  | invalid errors =>
      cases verdict' with
      | valid s' => simp [parsed] at heq
      | invalid errors' =>
          simp only [parsed, Json.object.injEq, List.cons.injEq, Prod.mk.injEq,
            Json.array.injEq, Json.string.injEq, true_and, and_true] at heq
          obtain ⟨herrors, hsource⟩ := heq
          have hinjective : Function.Injective Diagnostic.parsed :=
            fun _ _ h => Diagnostic.parsed_injective h
          exact ⟨hsource, congrArg Verdict.invalid (List.map_injective_iff.mpr hinjective herrors)⟩

/-- **JSON reports are faithful.**  Reports without blanks are one line for each document.
Each report, in either layout, is read as an object that says where the document came from,
whether it is valid, and the strategy or what is wrong.  Two reports with the same text are
on the same verdict of the same source. -/
theorem Report.faithful_json {outcomes : List (String × Verdict)}
    (h : ∀ o ∈ outcomes, o.2.Reportable) :
    (renderAll (.json false) outcomes).toList.splitOn '\n'
        = outcomes.map (fun o => (render (.json false) o.1 o.2).toList) ++ [[]]
      ∧ (∀ o ∈ outcomes, ∀ pretty,
        Json.parse? (render (.json pretty) o.1 o.2) = .ok (parsed o.1 o.2))
      ∧ ∀ o ∈ outcomes, ∀ o' ∈ outcomes, ∀ pretty,
        render (.json pretty) o.1 o.2 = render (.json pretty) o'.1 o'.2 → o = o' := by
  refine ⟨splitOn_renderAll outcomes, fun o ho => parse?_render (h o ho), ?_⟩
  intro o ho o' ho' pretty heq
  have hread : Json.parse? (render (.json pretty) o.1 o.2) = .ok (parsed o.1 o.2) :=
    parse?_render (h o ho) pretty
  rw [heq, parse?_render (h o' ho') pretty] at hread
  obtain ⟨hsource, hverdict⟩ := parsed_injective (h o ho) (h o' ho') (Except.ok.inj hread).symm
  exact Prod.ext hsource hverdict

/-- A strategy whose condition is a number and whose name needs escapes. -/
def Strategy.always : Strategy :=
  ⟨"al\"ways\n", "nobody", ⟨.number (.integer (-1)), [], none⟩⟩

/-- A valid and an invalid document, one of them with a line break in its source. -/
def Report.samples : List (String × Verdict) :=
  [("always\n.json", .valid Strategy.always),
    ("never.json", .invalid [⟨[.field "then", .index 0], .wrongFieldType, "not \t a call"⟩])]

theorem Report.reportable_samples : ∀ o ∈ samples, o.2.Reportable := by
  have hconformant : Strategy.always.Conformant := .conditional (.number _) nofun nofun
  have hwithin : Strategy.always.root.toExpression.Within ⟨false, 2, true⟩ 2 :=
    ⟨by decide, nofun⟩
  have hread : Strategy.ofJson? ⟨false, 2, true⟩ Strategy.always.toJson.sort
      = .ok Strategy.always :=
    Strategy.ofJson?_eq_ok_iff.mpr ⟨hconformant.represents, hwithin⟩
  have hliterals : Strategy.always.AllLiterals Json.Number.IsInteger :=
    ⟨⟨by decide, by decide⟩, trivial⟩
  have hpath : Path.InRange [.field "then", .index 0] := by
    intro number hnumber
    cases hnumber with
    | tail _ hnumber =>
        cases List.mem_singleton.mp hnumber
        exact ⟨by decide, by decide⟩
  have hvalid : (Verdict.valid Strategy.always).Reportable := ⟨⟨_, _, hread⟩, hliterals⟩
  exact List.forall_mem_cons.mpr ⟨hvalid, List.forall_mem_cons.mpr
    ⟨List.forall_mem_cons.mpr ⟨hpath, nofun⟩, nofun⟩⟩

/-- The two samples make two lines, each with its own report. -/
theorem Report.faithful_json_samples : (∀ o ∈ samples, o.2.Reportable)
    ∧ ((renderAll (.json false) samples).toList.splitOn '\n').length = 3
    ∧ ∀ o ∈ samples, Json.parse? (render (.json true) o.1 o.2) = .ok (parsed o.1 o.2) := by
  obtain ⟨hlines, hread, -⟩ := faithful_json reportable_samples
  refine ⟨reportable_samples, ?_, fun o ho => hread o ho true⟩
  rw [hlines]
  rfl

end StrategyDoc
