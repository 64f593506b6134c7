import StrategyDoc.Proofs.Conformance

/-! # Reading back what was written

A value that represents an expression has no other defects than that the expression is nested
too deeply or has an empty branch, each only if the policy forbids it
(`Represents.errors_expression`).  So a conformant strategy that is written and read back is
either found again or refused for the limits of the policy alone
(`Strategy.conformant_of_ofJson?_and_ofJson?_toJson`). -/

namespace StrategyDoc

/-! ### Diagnostics about the limits -/

/-- The diagnostic says that the nesting exceeds the limit, where it is too deep, or that a
branch is empty, where one is and the policy forbids it. -/
def Diagnostic.IsExcess (policy : Policy) (tooDeep hasEmptyBranch : Prop) (d : Diagnostic) : Prop :=
  (tooDeep ∧ d.kind = .recursionLimitExceeded
      ∧ d.message = (Defect.tooDeep policy.maxDepth).message)
    ∨ (hasEmptyBranch ∧ policy.allowEmptyBranches = false ∧ d.kind = .arrayLengthMismatch
      ∧ d.message = Defect.emptyBranch.message)

section excess

variable {policy : Policy} {p q p' q' : Prop} {d : Diagnostic} {ds : List Diagnostic}

theorem Diagnostic.IsExcess.mono (hp : p → p') (hq : q → q') (h : d.IsExcess policy p q) :
    d.IsExcess policy p' q' :=
  h.imp (And.imp_left hp) (And.imp_left hq)

theorem Diagnostic.IsExcess.mono_all (hp : p → p') (hq : q → q')
    (h : ∀ d ∈ ds, d.IsExcess policy p q) : ∀ d ∈ ds, d.IsExcess policy p' q' :=
  fun d hd => (h d hd).mono hp hq

theorem Diagnostic.IsExcess.under_all (step : Step) (h : ∀ d ∈ ds, d.IsExcess policy p q) :
    ∀ d ∈ ds.map (·.under step), d.IsExcess policy p q := by
  intro d hd
  obtain ⟨d', hd', rfl⟩ := List.mem_map.mp hd
  exact h d' hd'

theorem Diagnostic.IsExcess.append_all {ds' : List Diagnostic}
    (h : ∀ d ∈ ds, d.IsExcess policy p q) (h' : ∀ d ∈ ds', d.IsExcess policy p q) :
    ∀ d ∈ ds ++ ds', d.IsExcess policy p q :=
  List.forall_mem_append.mpr ⟨h, h'⟩

end excess

/-! ### One visit

Each visit has diagnostics about the limits only if the visits to the parts do. -/

namespace Validation

open Finding

section visits

variable {policy : Policy} {visit : Visitor} {p q : Prop} {members : List (String × Json)}

theorem excess_expressions {items : List Json}
    (h : ∀ item ∈ items, ∀ d ∈ (visit item).errors, d.IsExcess policy p q) :
    ∀ d ∈ (expressions visit items).errors, d.IsExcess policy p q := by
  intro d hd
  obtain ⟨f, hf, hd⟩ := List.mem_flatMap.mp hd
  obtain ⟨i, hi, rfl⟩ := List.mem_mapIdx.mp hf
  exact Diagnostic.IsExcess.under_all _ (h _ (List.getElem_mem hi)) d hd

theorem excess_branch {items : List Json} (hempty : items = [] → q)
    (h : ∀ item ∈ items, ∀ d ∈ (visit item).errors, d.IsExcess policy p q) :
    ∀ d ∈ (branch policy visit (.array items)).errors, d.IsExcess policy p q := by
  rcases branch_cases policy items with hallowed | ⟨hnil, hforbidden⟩
  · rw [branch_array_of_allowed hallowed]
    exact excess_expressions h
  · rw [branch_array_of_forbidden hnil hforbidden]
    intro d hd
    cases List.mem_singleton.mp hd
    exact .inr ⟨hempty hnil, hforbidden, rfl, rfl⟩

theorem excess_member {α : Type} {name : String} {absent : Finding α} {visit : Json → Finding α}
    (habsent : Json.member? name members = none → absent.errors = [])
    (h : ∀ value, Json.member? name members = some value →
      ∀ d ∈ (visit value).errors, d.IsExcess policy p q) :
    ∀ d ∈ (member name members absent visit).errors, d.IsExcess policy p q := by
  rw [errors_member]
  cases hmember : Json.member? name members with
  | none =>
      dsimp only
      rw [habsent hmember]
      exact nofun
  | some value => exact Diagnostic.IsExcess.under_all _ (h value hmember)

theorem excess_present {α : Type} {name : String} {absent : Finding α} {visit : Json → Finding α}
    {value : Json} (hmember : Json.member? name members = some value)
    (h : ∀ d ∈ (visit value).errors, d.IsExcess policy p q) :
    ∀ d ∈ (member name members absent visit).errors, d.IsExcess policy p q := by
  refine excess_member (fun hnone => ?_) fun other hother => ?_
  · cases hmember.symm.trans hnone
  · cases hmember.symm.trans hother
    exact h

theorem excess_conditional {value : Json} {items : List Json}
    (hif : Json.member? "if" members = some value)
    (hcondition : ∀ d ∈ (visit value).errors, d.IsExcess policy p q)
    (hthen : Json.member? "then" members = some (.array items))
    (hthenBranch : ∀ d ∈ (branch policy visit (.array items)).errors, d.IsExcess policy p q)
    (helse : ∀ elseBranch, Json.member? "else" members = some elseBranch →
      ∀ d ∈ (branch policy visit elseBranch).errors, d.IsExcess policy p q)
    (hdeclared : OnlyDeclared policy.strict conditionalFields members) :
    ∀ d ∈ (conditional policy visit members).errors, d.IsExcess policy p q := by
  rw [errors_conditional, undeclared_eq_nil_iff.mpr hdeclared, List.append_nil]
  refine Diagnostic.IsExcess.append_all (excess_present hif hcondition) ?_
  refine Diagnostic.IsExcess.append_all (excess_present hthen hthenBranch) ?_
  exact excess_member (fun _ => rfl) helse

/-- A node is cut off only where the budget is spent. -/
theorem excess_expression {value : Json} (budget : Nat) (hzero : budget = 0 → p)
    (h : ∀ rest, budget = rest + 1 →
      ∀ d ∈ (node policy (expression policy rest) value).errors, d.IsExcess policy p q) :
    ∀ d ∈ (expression policy budget value).errors, d.IsExcess policy p q := by
  cases budget with
  | zero =>
      intro d hd
      cases List.mem_singleton.mp hd
      exact .inl ⟨hzero rfl, rfl, rfl⟩
  | succ budget => exact h budget rfl

end visits

end Validation

/-! ### Values that represent strategies -/

section conditional

variable {condition : Expression} {thenBranch : List Expression}
  {elseBranch : Option (List Expression)} {budget : Nat}

theorem Expression.lt_depth_conditional (h : budget < condition.depth
      ∨ budget < depthOfAll thenBranch ∨ ∃ es, elseBranch = some es ∧ budget < depthOfAll es) :
    budget + 1 < (conditional condition thenBranch elseBranch).depth := by
  cases elseBranch with
  | none =>
      simp only [reduceCtorEq, false_and, exists_false, or_false] at h
      rw [depth]
      omega
  | some elseBranch =>
      simp only [Option.some.injEq, exists_eq_left'] at h
      rw [depth]
      omega

theorem Expression.not_noEmptyBranch_conditional (h : ¬ condition.NoEmptyBranch
      ∨ ¬ (thenBranch ≠ [] ∧ NoEmptyBranchInAll thenBranch)
      ∨ ∃ es, elseBranch = some es ∧ ¬ (es ≠ [] ∧ NoEmptyBranchInAll es)) :
    ¬ (conditional condition thenBranch elseBranch).NoEmptyBranch := by
  cases elseBranch with
  | none =>
      simp only [reduceCtorEq, false_and, exists_false, or_false] at h
      rw [NoEmptyBranch, Classical.not_and_iff_not_or_not]
      exact h
  | some elseBranch =>
      simp only [Option.some.injEq, exists_eq_left'] at h
      rw [NoEmptyBranch, Classical.not_and_iff_not_or_not, Classical.not_and_iff_not_or_not]
      exact h

end conditional

open Validation in
mutual

/-- **What is wrong with a value that represents an expression.**  It may be nested too deeply
for the budget, and it may have an empty branch. -/
theorem Represents.errors_expression {policy : Policy} {value : Json} {e : Expression} :
    Represents policy.strict value e → ∀ budget,
      ∀ d ∈ (expression policy budget value).errors,
        d.IsExcess policy (budget < e.depth) (¬ e.NoEmptyBranch)
  | .number => fun budget => by
      refine excess_expression budget ?_ fun rest _ => nofun
      rintro rfl
      exact Expression.depth_pos _
  | .call hcontract hfunction hfields hdeclared => fun budget => by
      refine excess_expression budget ?_ ?_
      · rintro rfl
        exact Expression.depth_pos _
      · rintro rest rfl
        have hparts := hfields.errors_fieldValues rest
        show ∀ d ∈ (object policy (expression policy rest) _).errors, _
        rw [object_call hcontract hfunction, errors_call, undeclared_eq_nil_iff.mpr hdeclared,
          List.append_nil]
        refine Diagnostic.IsExcess.mono_all (fun h => ?_) (fun h => h) hparts
        rw [Expression.depth]
        omega
  | .conditional hfunction hif hcondition hthen hthenBranch helse hdeclared => fun budget => by
      refine excess_expression budget ?_ ?_
      · rintro rfl
        exact Expression.depth_pos _
      · rintro rest rfl
        show ∀ d ∈ (object policy (expression policy rest) _).errors, _
        rw [object_conditional hfunction, Finding.errors_map]
        refine Diagnostic.IsExcess.mono_all Expression.lt_depth_conditional
          Expression.not_noEmptyBranch_conditional
          (excess_conditional hif ?_ hthen (excess_branch ?_ ?_) ?_ hdeclared)
        · exact Diagnostic.IsExcess.mono_all .inl .inl (hcondition.errors_expression rest)
        · rintro rfl
          refine .inr (.inl fun h => ?_)
          cases hthenBranch
          exact h.1 rfl
        · intro item hitem
          refine Diagnostic.IsExcess.mono_all (fun h => .inr (.inl h)) (fun h => ?_)
            (hthenBranch.errors_expression rest item hitem)
          exact .inr (.inl fun h' => h h'.2)
        · intro value hvalue
          exact Diagnostic.IsExcess.mono_all (fun h => .inr (.inr h)) (fun h => .inr (.inr h))
            (helse.errors_branch rest value hvalue)

theorem ItemsRepresent.errors_expression {policy : Policy} {items : List Json}
    {es : List Expression} : ItemsRepresent policy.strict items es → ∀ budget,
      ∀ item ∈ items, ∀ d ∈ (expression policy budget item).errors,
        d.IsExcess policy (budget < Expression.depthOfAll es) (¬ Expression.NoEmptyBranchInAll es)
  | .nil => fun _ => nofun
  | .cons hitem hitems => fun budget => by
      refine List.forall_mem_cons.mpr ⟨?_, fun item h => ?_⟩
      · refine Diagnostic.IsExcess.mono_all (fun h => ?_) (fun h h' => h h'.1)
          (hitem.errors_expression budget)
        rw [Expression.depthOfAll]
        omega
      · refine Diagnostic.IsExcess.mono_all (fun h => ?_) (fun h h' => h h'.2)
          (hitems.errors_expression budget item h)
        rw [Expression.depthOfAll]
        omega

theorem ElseRepresents.errors_branch {policy : Policy} {value : Option Json}
    {elseBranch : Option (List Expression)} :
    ElseRepresents policy.strict value elseBranch → ∀ budget, ∀ v, value = some v →
      ∀ d ∈ (branch policy (expression policy budget) v).errors,
        d.IsExcess policy (∃ es, elseBranch = some es ∧ budget < Expression.depthOfAll es)
          (∃ es, elseBranch = some es ∧ ¬ (es ≠ [] ∧ Expression.NoEmptyBranchInAll es))
  | .absent => fun _ => nofun
  | .present hitems => fun budget => by
      rintro _ ⟨⟩
      refine excess_branch ?_ fun item hitem => ?_
      · rintro rfl
        refine ⟨_, rfl, fun h => ?_⟩
        cases hitems
        exact h.1 rfl
      · exact Diagnostic.IsExcess.mono_all (fun h => ⟨_, rfl, h⟩)
          (fun h => ⟨_, rfl, fun h' => h h'.2⟩) (hitems.errors_expression budget item hitem)

theorem FieldRepresents.errors_fieldValue {policy : Policy} {kind : FieldKind} {value : Json}
    {v : FieldValue} : FieldRepresents policy.strict kind value v → ∀ budget,
      ∀ d ∈ (fieldValue policy (expression policy budget) kind value).errors,
        d.IsExcess policy (budget < v.depth) (¬ v.NoEmptyBranch)
  | .expression h => fun budget => by
      rw [fieldValue_expression]
      exact h.errors_expression budget
  | .sequence hlength hitems => fun budget => by
      rw [fieldValue_sequence hlength]
      exact excess_expressions (hitems.errors_expression budget)
  | .choice h => fun _ => by
      rw [fieldValue_oneOf_of_mem h]
      exact nofun
  | .text => fun _ => nofun
  | .identifier h => fun _ => by
      rw [fieldValue_identifier_of_pos ((isIdentifier_iff _).mpr h)]
      exact nofun
  | .shape hfields hdeclared => fun budget => by
      rw [fieldValue_shape, Finding.errors_followedBy, undeclared_eq_nil_iff.mpr hdeclared,
        List.append_nil]
      exact hfields.errors_fieldValues budget
  | .optional h => fun budget => by
      rw [fieldValue_optional]
      exact h.errors_fieldValue budget

theorem FieldsRepresent.errors_fieldValues {policy : Policy} {specs : List FieldSpec}
    {members : List (String × Json)} {fields : List (String × FieldValue)} :
    FieldsRepresent policy.strict specs members fields → ∀ budget,
      ∀ d ∈ (fieldValues policy (expression policy budget) specs members).flatMap (·.errors),
        d.IsExcess policy (budget < FieldValue.depthOfFields fields)
          (¬ FieldValue.NoEmptyBranchInFields fields)
  | .nil => fun _ => by
      rw [fieldValues]
      exact nofun
  | .skip habsent hoptional hfields => fun budget => by
      rw [fieldValues, habsent]
      dsimp only
      rw [if_neg hoptional]
      exact hfields.errors_fieldValues budget
  | .take hpresent hvalue hfields => fun budget => by
      rw [fieldValues, hpresent]
      dsimp only
      rw [List.flatMap_cons]
      refine Diagnostic.IsExcess.append_all (Diagnostic.IsExcess.under_all _ ?_) ?_
      · refine Diagnostic.IsExcess.mono_all (fun h => ?_) (fun h h' => h h'.1)
          (hvalue.errors_fieldValue budget)
        rw [FieldValue.depthOfFields]
        omega
      · refine Diagnostic.IsExcess.mono_all (fun h => ?_) (fun h h' => h h'.2)
          (hfields.errors_fieldValues budget)
        rw [FieldValue.depthOfFields]
        omega

end

theorem Represents.exists_members {strict : Bool} {value : Json} {c : Conditional}
    (h : Represents strict value c.toExpression) : ∃ members, value = .object members
      ∧ Json.member? "function" members = some (.string conditionalWord) := by
  generalize hconditional : c.toExpression = e at h
  cases h with
  | number => cases hconditional
  | call => cases hconditional
  | conditional hfunction => exact ⟨_, rfl, hfunction⟩

section documents

variable {policy : Policy} {document : Json} {s : Strategy}

open Validation in
theorem DocumentRepresents.errors_strategy (h : DocumentRepresents policy.strict document s) :
    ∀ d ∈ (strategy policy document).errors,
      d.IsExcess policy (policy.maxDepth < s.root.depth) (¬ s.root.toExpression.NoEmptyBranch) := by
  cases h with
  | @intro members value _ hname hauthor hstrategy hroot hdeclared =>
      obtain ⟨inner, rfl, hfunction⟩ := hroot.exists_members
      -- The root is visited as an expression with at least one level would be.
      have hvisit : (root policy (.object inner)).errors
          = (expression policy (policy.maxDepth - 1 + 1) (.object inner)).errors := by
        show _ = (object policy (expression policy (policy.maxDepth - 1)) inner).errors
        rw [root_conditional hfunction, object_conditional hfunction, Finding.errors_map]
      have herrors := hroot.errors_expression (policy.maxDepth - 1 + 1)
      rw [← hvisit] at herrors
      have hpos := s.root.toExpression.depth_pos
      rw [Validation.errors_strategy, undeclared_eq_nil_iff.mpr hdeclared, List.append_nil]
      refine Diagnostic.IsExcess.append_all (excess_present hname nofun) ?_
      refine Diagnostic.IsExcess.append_all (excess_present hauthor nofun) ?_
      refine excess_present hstrategy (Diagnostic.IsExcess.mono_all (fun h => ?_) (fun h => h)
        herrors)
      show _ < s.root.toExpression.depth
      omega

theorem Strategy.Conformant.represents {strict : Bool} (h : s.Conformant) :
    DocumentRepresents strict s.toJson.sort s := by
  have hnodup : ([("name", Json.string s.name), ("author", .string s.author),
      ("strategy", s.root.toJson)].map (·.1)).Nodup := by
    show ["name", "author", "strategy"].Nodup
    decide
  have hfound := Json.member?_sort hnodup
  refine .intro (hfound _) (hfound _) (hfound _) (Expression.Conformant.represents h) ?_
  apply OnlyDeclared.sort
  show ∀ name ∈ ["name", "author", "strategy"], name ∈ Validation.strategyFields
  decide

/-- **What is read, and what is read back.**  A strategy that is read is conformant and within
the limits of the policy.  A conformant strategy that is written is read back under another
policy exactly if it is within the limits of that one; otherwise every diagnostic is about a
limit that it exceeds. -/
theorem Strategy.conformant_of_ofJson?_and_ofJson?_toJson :
    (∀ policy document s, Strategy.ofJson? policy document = .ok s →
      s.Conformant ∧ s.root.depth ≤ policy.maxDepth
        ∧ (policy.allowEmptyBranches = false → s.root.toExpression.NoEmptyBranch))
    ∧ ∀ policy s, s.Conformant →
      (Strategy.ofJson? policy s.toJson.sort = .ok s
        ↔ s.root.depth ≤ policy.maxDepth
          ∧ (policy.allowEmptyBranches = true ∨ s.root.toExpression.NoEmptyBranch))
      ∧ (¬ (s.root.depth ≤ policy.maxDepth
          ∧ (policy.allowEmptyBranches = true ∨ s.root.toExpression.NoEmptyBranch)) →
        ∃ errors, Strategy.ofJson? policy s.toJson.sort = .error errors ∧ errors ≠ []
          ∧ ∀ d ∈ errors, d.IsExcess policy (policy.maxDepth < s.root.depth)
              (¬ s.root.toExpression.NoEmptyBranch)) := by
  refine ⟨fun policy document s h => ?_, fun policy s h => ?_⟩
  · obtain ⟨hdocument, hdepth, hempty⟩ := Strategy.ofJson?_eq_ok_iff.mp h
    cases hdocument with
    | intro _ _ _ hroot => exact ⟨hroot.conformant, hdepth, hempty⟩
  · have hdocument : DocumentRepresents policy.strict s.toJson.sort s := h.represents
    have hlimits : s.root.toExpression.Within policy policy.maxDepth
        ↔ s.root.depth ≤ policy.maxDepth
          ∧ (policy.allowEmptyBranches = true ∨ s.root.toExpression.NoEmptyBranch) := by
      refine and_congr_right fun _ => ?_
      cases policy.allowEmptyBranches <;> simp
    have hread : Strategy.ofJson? policy s.toJson.sort = .ok s
        ↔ s.root.toExpression.Within policy policy.maxDepth :=
      Strategy.ofJson?_eq_ok_iff.trans (and_iff_right hdocument)
    refine ⟨hread.trans hlimits, fun hexcess => ?_⟩
    have hnone : ∀ s', Validation.strategy policy s.toJson.sort ≠ .accept s' := by
      intro s' haccept
      obtain ⟨hother, hwithin⟩ := Validation.strategy_eq_accept_iff.mp haccept
      cases hdocument.unique hother
      exact hexcess (hlimits.mp hwithin)
    obtain ⟨hresult, hne⟩ := (Validation.coherent_strategy _).result_eq_error hnone
    exact ⟨_, hresult, hne, hdocument.errors_strategy⟩

end documents

/-- A strategy that looks at a variable and then does nothing. -/
def Strategy.idle : Strategy :=
  ⟨"idle", "nobody", ⟨.call "get" [("symbol", .text "x")], [], none⟩⟩

theorem Strategy.conformant_idle : Strategy.idle.Conformant := by
  have hget : ⟨"get", .variables, [("symbol", .identifier)]⟩ ∈ Catalog.all :=
    List.mem_of_getElem? (i := 24) rfl
  have hsymbol : IsVariableName "x" := (isIdentifier_iff "x").mp (by decide)
  exact .conditional (.call hget (.take nofun (.identifier hsymbol) .nil)) nofun nofun

/-- Two levels are enough for the idle strategy, one is not, and its branch is empty. -/
theorem Strategy.ofJson?_toJson_idle : Strategy.idle.Conformant
    ∧ Strategy.ofJson? ⟨true, 2, true⟩ Strategy.idle.toJson.sort = .ok Strategy.idle
    ∧ ∃ errors, Strategy.ofJson? ⟨false, 1, false⟩ Strategy.idle.toJson.sort = .error errors
      ∧ errors ≠ [] ∧ ∀ d ∈ errors, d.IsExcess ⟨false, 1, false⟩ (1 < Strategy.idle.root.depth)
          (¬ Strategy.idle.root.toExpression.NoEmptyBranch) := by
  have hdepth : Strategy.idle.root.depth = 2 := by decide
  obtain ⟨hread, _⟩ :=
    conformant_of_ofJson?_and_ofJson?_toJson.2 ⟨true, 2, true⟩ idle conformant_idle
  obtain ⟨_, hrefused⟩ :=
    conformant_of_ofJson?_and_ofJson?_toJson.2 ⟨false, 1, false⟩ idle conformant_idle
  refine ⟨conformant_idle, hread.mpr ⟨?_, .inl rfl⟩, hrefused fun h => ?_⟩
  · exact Nat.le_of_eq hdepth
  · have hle := h.1
    rw [hdepth] at hle
    exact absurd hle (by decide)

end StrategyDoc
