import Mathlib.Data.List.Pairwise
import StrategyDoc.Proofs.Comparison
import StrategyDoc.Proofs.Representation
import StrategyDoc.Proofs.Separation
import StrategyDoc.Proofs.Substitution

/-! # The limit on nesting

Under a lower limit, an accepted document stays accepted exactly if its strategy is not deeper
(`ofJson?_withMaxDepth_iff_depth_le`): what the walk counts is the depth of what it reads.

In general a lower limit cuts off the parts that stand too deep and does nothing else.  The
diagnostics under it are those under the higher limit with one in place of all that are inside
a part that is cut off (`Cuts`).  As no diagnostic is inside such a part (`Reports.outsideCuts`),
the others are the ones under the higher limit that are outside of all these parts
(`filter_ofResult_withMaxDepth`). -/

namespace StrategyDoc

/-! ### Accepted documents -/

section depth

variable {policy : Policy} {document : Json}

theorem Strategy.depth_le_of_ofJson? {s : Strategy}
    (h : Strategy.ofJson? policy document = .ok s) : s.root.depth ≤ policy.maxDepth :=
  (Strategy.ofJson?_eq_ok_iff.mp h).2.1

theorem Strategy.ofJson?_withMaxDepth_of_depth_le {s : Strategy} {limit : Nat}
    (h : Strategy.ofJson? policy document = .ok s) (hdepth : s.root.depth ≤ limit) :
    Strategy.ofJson? (policy.withMaxDepth limit) document = .ok s := by
  obtain ⟨hdocument, _, hempty⟩ := Strategy.ofJson?_eq_ok_iff.mp h
  exact Strategy.ofJson?_eq_ok_iff.mpr ⟨hdocument, hdepth, hempty⟩

theorem Strategy.eq_of_ofJson?_withMaxDepth {s s' : Strategy} {limit : Nat}
    (h : Strategy.ofJson? policy document = .ok s)
    (h' : Strategy.ofJson? (policy.withMaxDepth limit) document = .ok s') : s' = s := by
  obtain ⟨hdocument, _⟩ := Strategy.ofJson?_eq_ok_iff.mp h
  obtain ⟨hdocument', _⟩ := Strategy.ofJson?_eq_ok_iff.mp h'
  exact hdocument'.unique hdocument

theorem Expression.depth_le_of_ofJson? {e : Expression}
    (h : Expression.ofJson? policy document = .ok e) : e.depth ≤ policy.maxDepth :=
  (Expression.ofJson?_eq_ok_iff.mp h).2.1

theorem Expression.ofJson?_withMaxDepth_of_depth_le {e : Expression} {limit : Nat}
    (h : Expression.ofJson? policy document = .ok e) (hdepth : e.depth ≤ limit) :
    Expression.ofJson? (policy.withMaxDepth limit) document = .ok e := by
  obtain ⟨hvalue, _, hempty⟩ := Expression.ofJson?_eq_ok_iff.mp h
  exact Expression.ofJson?_eq_ok_iff.mpr ⟨hvalue, hdepth, hempty⟩

theorem Expression.eq_of_ofJson?_withMaxDepth {e e' : Expression} {limit : Nat}
    (h : Expression.ofJson? policy document = .ok e)
    (h' : Expression.ofJson? (policy.withMaxDepth limit) document = .ok e') : e' = e := by
  obtain ⟨hvalue, _⟩ := Expression.ofJson?_eq_ok_iff.mp h
  obtain ⟨hvalue', _⟩ := Expression.ofJson?_eq_ok_iff.mp h'
  exact hvalue'.unique hvalue

/-- **The limit is on the depth of what is read.**  A lower limit reads the same as a higher
one, exactly if that is not deeper.  So whatever is read under some limit is read under the
limits from its depth upwards, and nothing is read under the others. -/
theorem ofJson?_withMaxDepth_iff_depth_le (policy : Policy) (document : Json) :
    (∀ m m', m ≤ m' → ∀ s,
      Strategy.ofJson? (policy.withMaxDepth m) document = .ok s
        ↔ Strategy.ofJson? (policy.withMaxDepth m') document = .ok s ∧ s.root.depth ≤ m)
    ∧ (∀ m m', m ≤ m' → ∀ e,
      Expression.ofJson? (policy.withMaxDepth m) document = .ok e
        ↔ Expression.ofJson? (policy.withMaxDepth m') document = .ok e ∧ e.depth ≤ m)
    ∧ (∀ s, Strategy.ofJson? policy document = .ok s → ∀ limit,
      (Strategy.ofJson? (policy.withMaxDepth limit) document = .ok s ↔ s.root.depth ≤ limit)
        ∧ ∀ s', Strategy.ofJson? (policy.withMaxDepth limit) document = .ok s' → s' = s)
    ∧ ∀ e, Expression.ofJson? policy document = .ok e → ∀ limit,
      (Expression.ofJson? (policy.withMaxDepth limit) document = .ok e ↔ e.depth ≤ limit)
        ∧ ∀ e', Expression.ofJson? (policy.withMaxDepth limit) document = .ok e' → e' = e := by
  refine ⟨fun m m' hle s => ⟨fun hs => ?_, fun ⟨hs, hdepth⟩ => ?_⟩,
    fun m m' hle e => ⟨fun he => ?_, fun ⟨he, hdepth⟩ => ?_⟩, fun s hs limit => ⟨⟨?_, ?_⟩, ?_⟩,
    fun e he limit => ⟨⟨?_, ?_⟩, ?_⟩⟩
  · have hdepth : s.root.depth ≤ m := Strategy.depth_le_of_ofJson? hs
    have hs' := Strategy.ofJson?_withMaxDepth_of_depth_le hs (Nat.le_trans hdepth hle)
    exact ⟨hs', hdepth⟩
  · have hs' := Strategy.ofJson?_withMaxDepth_of_depth_le hs hdepth
    exact hs'
  · have hdepth : e.depth ≤ m := Expression.depth_le_of_ofJson? he
    have he' := Expression.ofJson?_withMaxDepth_of_depth_le he (Nat.le_trans hdepth hle)
    exact ⟨he', hdepth⟩
  · have he' := Expression.ofJson?_withMaxDepth_of_depth_le he hdepth
    exact he'
  · exact Strategy.depth_le_of_ofJson?
  · exact Strategy.ofJson?_withMaxDepth_of_depth_le hs
  · exact fun s' => Strategy.eq_of_ofJson?_withMaxDepth hs
  · exact Expression.depth_le_of_ofJson?
  · exact Expression.ofJson?_withMaxDepth_of_depth_le he
  · exact fun e' => Expression.eq_of_ofJson?_withMaxDepth he

end depth

/-- Two levels are enough for the document that is only a condition, and one level is for the
condition. -/
theorem Json.ofJson?_conditionOnly_iff :
    (2 ≤ 3 ∧ ∃ s, Strategy.ofJson? ⟨true, 3, true⟩ Json.conditionOnly = .ok s
      ∧ Strategy.ofJson? ⟨true, 2, true⟩ Json.conditionOnly = .ok s
      ∧ ∀ limit, Strategy.ofJson? ⟨true, limit, true⟩ Json.conditionOnly = .ok s ↔ 2 ≤ limit)
    ∧ 1 ≤ 3 ∧ ∃ e, Expression.ofJson? ⟨true, 3, true⟩ (.number (.integer 1)) = .ok e
      ∧ Expression.ofJson? ⟨true, 1, true⟩ (.number (.integer 1)) = .ok e
      ∧ ∀ limit, Expression.ofJson? ⟨true, limit, true⟩ (.number (.integer 1)) = .ok e
        ↔ 1 ≤ limit := by
  have hs : Strategy.ofJson? ⟨true, 3, true⟩ Json.conditionOnly
      = .ok ⟨"idle", "nobody", ⟨.number (.integer 1), [], none⟩⟩ := rfl
  have he : Expression.ofJson? ⟨true, 3, true⟩ (.number (.integer 1))
      = .ok (.number (.integer 1)) := rfl
  have hle : 2 ≤ 3 := by decide
  have hle' : 1 ≤ 3 := by decide
  obtain ⟨hlower, _, hlimits, _⟩ :=
    ofJson?_withMaxDepth_iff_depth_le ⟨true, 3, true⟩ Json.conditionOnly
  obtain ⟨_, hlower', _, hlimits'⟩ :=
    ofJson?_withMaxDepth_iff_depth_le ⟨true, 3, true⟩ (.number (.integer 1))
  refine ⟨⟨hle, _, hs, ?_, ?_⟩, hle', _, he, ?_, ?_⟩
  · exact (hlower 2 3 hle _).mpr ⟨hs, by decide⟩
  · exact fun limit => (hlimits _ hs limit).1
  · exact (hlower' 1 3 hle' _).mpr ⟨he, by decide⟩
  · exact fun limit => (hlimits' _ he limit).1

/-! ### Cutting off -/

/-- The first diagnostics are the second with one about the limit in place of those inside a
part, for some of the parts. -/
inductive Cuts : List Diagnostic → List Diagnostic → Prop
  | nil : Cuts [] []
  | keep {as bs : List Diagnostic} (d : Diagnostic) (hkind : d.kind ≠ .recursionLimitExceeded)
      (h : Cuts as bs) : Cuts (d :: as) (d :: bs)
  | cut {as bs : List Diagnostic} (d : Diagnostic) (inside : List Diagnostic)
      (hkind : d.kind = .recursionLimitExceeded) (hinside : ∀ e ∈ inside, d.path <+: e.path)
      (h : Cuts as bs) : Cuts (d :: as) (inside ++ bs)

namespace Cuts

variable {as bs as' bs' : List Diagnostic}

theorem append (h : Cuts as bs) (h' : Cuts as' bs') : Cuts (as ++ as') (bs ++ bs') := by
  induction h with
  | nil => exact h'
  | keep d hkind _ ih => exact .keep d hkind ih
  | cut d inside hkind hinside _ ih =>
      rw [List.append_assoc]
      exact .cut d inside hkind hinside ih

theorem under (step : Step) (h : Cuts as bs) :
    Cuts (as.map (·.under step)) (bs.map (·.under step)) := by
  induction h with
  | nil => exact .nil
  | keep d hkind _ ih => exact .keep (d.under step) hkind ih
  | cut d inside hkind hinside _ ih =>
      have hstep : ∀ e ∈ inside.map (·.under step), (d.under step).path <+: e.path := by
        intro e he
        obtain ⟨e', he', rfl⟩ := List.mem_map.mp he
        exact List.cons_prefix_cons.mpr ⟨rfl, hinside e' he'⟩
      rw [List.map_append]
      exact .cut (d.under step) _ hkind hstep ih

theorem refl (h : ∀ d ∈ as, d.kind ≠ .recursionLimitExceeded) : Cuts as as := by
  induction as with
  | nil => exact .nil
  | cons d as ih =>
      obtain ⟨hd, has⟩ := List.forall_mem_cons.mp h
      exact .keep d hd (ih has)

theorem congruence : Diagnostic.Congruence Cuts where
  nil := .nil
  append := append
  under := under
  same d hlimit _ := .keep d hlimit .nil

/-- If a property tells the kept diagnostics from whatever is inside the parts cut off, the
kept ones are those with the property on either side. -/
theorem filter_eq (h : Cuts as bs) (p : Diagnostic → Prop) [DecidablePred p]
    (hkept : ∀ d ∈ as, d.kind ≠ .recursionLimitExceeded → p d)
    (hcut : ∀ d ∈ as, d.kind = .recursionLimitExceeded →
      ∀ e : Diagnostic, d.path <+: e.path → ¬ p e) :
    as.filter (fun d => d.kind ≠ .recursionLimitExceeded) = bs.filter (fun d => p d) := by
  induction h with
  | nil => rfl
  | keep d hkind _ ih =>
      obtain ⟨hd, hkept⟩ := List.forall_mem_cons.mp hkept
      have hrest := ih hkept fun e he => hcut e (List.mem_cons_of_mem _ he)
      rw [List.filter_cons_of_pos (by simpa using hkind),
        List.filter_cons_of_pos (by simpa using hd hkind), hrest]
  | cut d inside hkind hinside _ ih =>
      obtain ⟨hd, hcut⟩ := List.forall_mem_cons.mp hcut
      have hrest := ih (fun e he => hkept e (List.mem_cons_of_mem _ he)) hcut
      have hnone : inside.filter (fun e => p e) = [] := by
        rw [List.filter_eq_nil_iff]
        intro e he
        simpa using hd hkind e (hinside e he)
      rw [List.filter_cons_of_neg (by simpa using hkind), List.filter_append, hnone,
        List.nil_append, hrest]

end Cuts

/-- The places where something is cut off. -/
def Diagnostic.cutPaths (ds : List Diagnostic) : List Path :=
  (ds.filter fun d => d.kind = .recursionLimitExceeded).map (·.path)

theorem Cuts.filter_eq_of_reports {policy : Policy} {place : Place} {as bs : List Diagnostic}
    (h : Cuts as bs) (hreports : Reports policy place as) :
    as.filter (fun d => d.kind ≠ .recursionLimitExceeded)
      = bs.filter (fun d => ∀ path ∈ Diagnostic.cutPaths as, ¬ path <+: d.path) := by
  have hcutPaths : ∀ path, path ∈ Diagnostic.cutPaths as
      ↔ ∃ c ∈ as, c.kind = .recursionLimitExceeded ∧ c.path = path := by
    intro path
    simp [Diagnostic.cutPaths, and_assoc]
  have houtside := hreports.outsideCuts
  refine h.filter_eq _ (fun d hd hkind path hpath => ?_) (fun d hd hkind e hprefix hnone => ?_)
  · obtain ⟨c, hc, hckind, rfl⟩ := (hcutPaths path).mp hpath
    have hne : c ≠ d := by
      rintro rfl
      exact hkind hckind
    have : Std.Symm Diagnostic.OutsideCuts := ⟨fun _ _ => And.symm⟩
    exact (houtside.forall hc hd hne).1 hckind
  · exact hnone d.path ((hcutPaths _).mpr ⟨d, hd, hkind, rfl⟩) hprefix

/-! ### Two limits -/

namespace Validation

variable (policy : Policy)

theorem cuts_parts {visit visit' : Visitor} (m m' : Nat)
    (hvisit : ∀ value, Cuts (visit value).errors (visit' value).errors) :
    RelatedParts Cuts (policy.withMaxDepth m) (policy.withMaxDepth m') visit visit' where
  congruence := Cuts.congruence
  visit := hvisit
  undeclared declared members := by
    refine Cuts.refl fun d hd => ?_
    rw [(unexpected_of_mem_undeclared d hd).2]
    exact nofun

theorem cuts_expression (m m' : Nat) {budget : Nat} : ∀ {budget' : Nat}, budget ≤ budget' →
    ∀ value, Cuts (expression (policy.withMaxDepth m) budget value).errors
      (expression (policy.withMaxDepth m') budget' value).errors := by
  induction budget with
  | zero =>
      intro budget' _ value
      have hcut := Cuts.cut (Defect.tooDeep m).diagnostic
        (expression (policy.withMaxDepth m') budget' value).errors rfl
        (fun _ _ => List.nil_prefix) .nil
      rw [List.append_nil] at hcut
      exact hcut
  | succ budget ih =>
      intro budget' hle value
      obtain ⟨budget', rfl⟩ := Nat.exists_eq_add_one_of_ne_zero (show budget' ≠ 0 by omega)
      have hparts := cuts_parts policy m m' (ih (Nat.le_of_succ_le_succ hle))
      exact related_node hparts (related_branch hparts rfl) value

theorem cuts_strategy {m m' : Nat} (hle : m ≤ m') (document : Json) :
    Cuts (strategy (policy.withMaxDepth m) document).errors
      (strategy (policy.withMaxDepth m') document).errors := by
  have hvisit : ∀ value, Cuts (expression (policy.withMaxDepth m) (m - 1) value).errors
      (expression (policy.withMaxDepth m') (m' - 1) value).errors :=
    cuts_expression policy m m' (Nat.sub_le_sub_right hle 1)
  have hparts := cuts_parts policy m m' hvisit
  exact related_strategy hparts (related_branch hparts rfl) document

end Validation

open Validation Finding in
/-- **The limit cuts off what is too deep and does nothing else.**  Of what is found under a
lower limit, everything but the diagnostics about the limit is found under the higher one as
well, in the same order, and that is all that is found there outside of what is cut off. -/
theorem filter_ofResult_withMaxDepth (policy : Policy) (document : Json) {m m' : Nat}
    (h : m ≤ m') :
    (Diagnostic.ofResult (Strategy.ofJson? (policy.withMaxDepth m) document)).filter
        (fun d => d.kind ≠ .recursionLimitExceeded)
      = (Diagnostic.ofResult (Strategy.ofJson? (policy.withMaxDepth m') document)).filter
        (fun d => ∀ path ∈ Diagnostic.cutPaths
            (Diagnostic.ofResult (Strategy.ofJson? (policy.withMaxDepth m) document)),
          ¬ path <+: d.path)
    ∧ (Diagnostic.ofResult (Expression.ofJson? (policy.withMaxDepth m) document)).filter
        (fun d => d.kind ≠ .recursionLimitExceeded)
      = (Diagnostic.ofResult (Expression.ofJson? (policy.withMaxDepth m') document)).filter
        (fun d => ∀ path ∈ Diagnostic.cutPaths
            (Diagnostic.ofResult (Expression.ofJson? (policy.withMaxDepth m) document)),
          ¬ path <+: d.path) := by
  constructor
  · refine Cuts.filter_eq_of_reports ?_ (reports_ofJson?_strategy _ document)
    rw [Strategy.ofJson?, ofResult_result, Strategy.ofJson?, ofResult_result]
    exact cuts_strategy policy h document
  · refine Cuts.filter_eq_of_reports ?_ (reports_ofJson?_expression _ document)
    rw [Expression.ofJson?, ofResult_result, Expression.ofJson?, ofResult_result]
    exact cuts_expression policy m m' h document

/-- A document with a condition in its condition, and with two defects. -/
def Json.nested : Json :=
  .object [("author", .string "nobody"), ("name", .string "idle"),
    ("strategy", .object [("function", .string conditionalWord),
      ("if", .object [("function", .string conditionalWord), ("if", .null), ("then", .array [])]),
      ("then", .array [.bool true])])]

/-- The inner condition is cut off if only two levels are allowed. -/
theorem Json.filter_ofResult_nested :
    2 ≤ 3
    ∧ (Diagnostic.ofResult (Strategy.ofJson? ⟨true, 2, true⟩ Json.nested)).filter
        (fun d => d.kind ≠ .recursionLimitExceeded)
      = (Diagnostic.ofResult (Strategy.ofJson? ⟨true, 3, true⟩ Json.nested)).filter
        (fun d => ¬ [.field "strategy", .field "if", .field "if"] <+: d.path) := by
  have hcut : Diagnostic.cutPaths
      (Diagnostic.ofResult (Strategy.ofJson? ⟨true, 2, true⟩ Json.nested))
      = [[.field "strategy", .field "if", .field "if"]] := rfl
  have h : 2 ≤ 3 := by decide
  refine ⟨h, ?_⟩
  have hfilter := (filter_ofResult_withMaxDepth ⟨true, 3, true⟩ Json.nested h).1
  simp only [Policy.withMaxDepth, hcut, List.forall_mem_singleton] at hfilter
  exact hfilter

end StrategyDoc
