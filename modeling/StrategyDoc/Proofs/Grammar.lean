import StrategyDoc.Proofs.Contracts
import StrategyDoc.Proofs.Visits

/-! # The grammar of strategy documents

`IsDocument policy` says in rules which JSON values are strategy documents under a policy.
The rules speak of values only: they know neither diagnostics nor the strategy that a
document is read as.  Every expression stands at a nesting level, the root at level one and
the parts of an expression one level below it, and no expression may stand deeper than the
policy allows.

The validator accepts exactly these values (`exists_ofJson?_eq_ok_iff`).  Both directions go
through the absence of diagnostics, one lemma for each visit. -/

namespace StrategyDoc.Grammar

variable (policy : Policy)

/-- Every required field is present. -/
def RequiredPresent (specs : List FieldSpec) (members : List (String × Json)) : Prop :=
  ∀ spec ∈ specs, spec.2.isRequired = true →
    ∃ value, Json.member? spec.1 members = some value

mutual

/-- The value is an expression that may stand at the level. -/
inductive IsExpression : (level : Nat) → Json → Prop
  | number {level : Nat} {n : Json.Number} (hlevel : level ≤ policy.maxDepth) :
      IsExpression level (.number n)
  | conditional {level : Nat} {members : List (String × Json)}
      (h : IsConditional level members) : IsExpression level (.object members)
  | call {level : Nat} {members : List (String × Json)} {contract : Contract}
      (hlevel : level ≤ policy.maxDepth) (hcontract : contract ∈ Catalog.all)
      (hfunction : Json.member? "function" members = some (.string contract.name))
      (hrequired : RequiredPresent contract.fields members)
      (hfields : ∀ spec ∈ contract.fields, ∀ value, Json.member? spec.1 members = some value →
        Fits level spec.2 value)
      (hdeclared : OnlyDeclared policy.strict ("function" :: contract.fieldNames) members) :
      IsExpression level (.object members)

/-- The members are those of a conditional that may stand at the level. -/
inductive IsConditional : (level : Nat) → List (String × Json) → Prop
  | intro {level : Nat} {members : List (String × Json)} {condition thenBranch : Json}
      (hlevel : level ≤ policy.maxDepth)
      (hfunction : Json.member? "function" members = some (.string "ifthen"))
      (hif : Json.member? "if" members = some condition)
      (hcondition : IsExpression (level + 1) condition)
      (hthen : Json.member? "then" members = some thenBranch)
      (hthenBranch : IsBranch (level + 1) thenBranch)
      (helse : ∀ elseBranch, Json.member? "else" members = some elseBranch →
        IsBranch (level + 1) elseBranch)
      (hdeclared : OnlyDeclared policy.strict ["function", "if", "then", "else"] members) :
      IsConditional level members

/-- The value is an array of expressions that may stand at the level, and not an empty one
if the policy forbids that. -/
inductive IsBranch : (level : Nat) → Json → Prop
  | array {level : Nat} {items : List Json}
      (hempty : policy.allowEmptyBranches = false → items ≠ [])
      (hitems : ∀ item ∈ items, IsExpression level item) : IsBranch level (.array items)

/-- The value is what the kind asks for, in an expression at the level. -/
inductive Fits : (level : Nat) → FieldKind → Json → Prop
  | expression {level : Nat} {value : Json} (h : IsExpression (level + 1) value) :
      Fits level .expression value
  | sequence {level : Nat} {length : Option Nat} {items : List Json}
      (hlength : ∀ expected, length = some expected → items.length = expected)
      (hitems : ∀ item ∈ items, IsExpression (level + 1) item) :
      Fits level (.sequence length) (.array items)
  | oneOf {level : Nat} {allowed : List String} {s : String} (h : s ∈ allowed) :
      Fits level (.oneOf allowed) (.string s)
  | text {level : Nat} {s : String} : Fits level .text (.string s)
  | identifier {level : Nat} {s : String} (h : IsVariableName s) :
      Fits level .identifier (.string s)
  | shape {level : Nat} {specs : List FieldSpec} {members : List (String × Json)}
      (hrequired : RequiredPresent specs members)
      (hfields : ∀ spec ∈ specs, ∀ value, Json.member? spec.1 members = some value →
        Fits level spec.2 value)
      (hdeclared : OnlyDeclared policy.strict (specs.map (·.1)) members) :
      Fits level (.shape specs) (.object members)
  | optional {level : Nat} {inner : FieldKind} {value : Json} (h : Fits level inner value) :
      Fits level (.optional inner) value

end

/-- The value is a strategy document. -/
inductive IsDocument : Json → Prop
  | intro {members root : List (String × Json)} {name author : String}
      (hname : Json.member? "name" members = some (.string name))
      (hauthor : Json.member? "author" members = some (.string author))
      (hstrategy : Json.member? "strategy" members = some (.object root))
      (hroot : IsConditional policy 1 root)
      (hdeclared : OnlyDeclared policy.strict ["name", "author", "strategy"] members) :
      IsDocument (.object members)

variable {policy}

theorem IsExpression.level_le {level : Nat} {value : Json}
    (h : IsExpression policy level value) : level ≤ policy.maxDepth := by
  cases h with
  | number hlevel => exact hlevel
  | conditional h =>
      cases h with
      | intro hlevel => exact hlevel
  | call hlevel => exact hlevel

/-- An object with the marker of a conditional is an expression only as a conditional. -/
theorem IsExpression.isConditional {level : Nat} {members : List (String × Json)}
    (h : IsExpression policy level (.object members))
    (hfunction : Json.member? "function" members = some (.string conditionalWord)) :
    IsConditional policy level members := by
  generalize hvalue : Json.object members = value at h
  cases h with
  | number => cases hvalue
  | conditional h =>
      cases hvalue
      exact h
  | call _ hcontract h =>
      cases hvalue
      have hname : Json.string conditionalWord = _ := Option.some.inj (hfunction.symm.trans h)
      exact absurd (Json.string.inj hname).symm (Catalog.name_ne_conditionalWord hcontract)

/-- An object with the marker of a contract is an expression only as a call of it. -/
theorem IsExpression.isCall {level : Nat} {members : List (String × Json)} {contract : Contract}
    (h : IsExpression policy level (.object members)) (hcontract : contract ∈ Catalog.all)
    (hfunction : Json.member? "function" members = some (.string contract.name)) :
    RequiredPresent contract.fields members
      ∧ (∀ spec ∈ contract.fields, ∀ value, Json.member? spec.1 members = some value →
          Fits policy level spec.2 value)
      ∧ OnlyDeclared policy.strict ("function" :: contract.fieldNames) members := by
  generalize hvalue : Json.object members = value at h
  cases h with
  | number => cases hvalue
  | conditional h =>
      cases hvalue
      cases h with
      | intro _ h =>
          have hname : Json.string contract.name = _ := Option.some.inj (hfunction.symm.trans h)
          exact absurd (Json.string.inj hname) (Catalog.name_ne_conditionalWord hcontract)
  | call _ hother h hrequired hfields hdeclared =>
      cases hvalue
      have hname : Json.string contract.name = _ := Option.some.inj (hfunction.symm.trans h)
      cases Catalog.eq_of_name_eq hcontract hother (Json.string.inj hname)
      exact ⟨hrequired, hfields, hdeclared⟩

/-! ### Fields -/

open Validation Finding

section fields

variable {visit : Visitor} {level : Nat}

theorem requiredPresent_cons {name : String} {kind : FieldKind} {rest : List FieldSpec}
    {members : List (String × Json)} :
    RequiredPresent ((name, kind) :: rest) members
      ↔ (kind.isRequired = true → ∃ value, Json.member? name members = some value)
        ∧ RequiredPresent rest members := by
  unfold RequiredPresent
  rw [List.forall_mem_cons]

theorem errors_branch_eq_nil_iff
    (hvisit : ∀ v, (visit v).errors = [] ↔ IsExpression policy level v) (value : Json) :
    (branch policy visit value).errors = [] ↔ IsBranch policy level value := by
  cases value with
  | array items =>
      by_cases hempty : policy.allowEmptyBranches = false → items ≠ []
      · rw [branch_array_of_allowed hempty, errors_expressions_eq_nil_iff]
        simp only [hvisit]
        exact ⟨.array hempty, fun ⟨_, hitems⟩ => hitems⟩
      · obtain ⟨hforbidden, hnil⟩ := Classical.not_imp.mp hempty
        rw [branch_array_of_forbidden (Classical.not_not.mp hnil) hforbidden]
        exact iff_of_false (List.cons_ne_nil _ _) fun ⟨h, _⟩ => absurd h hempty
  | _ => exact iff_of_false (List.cons_ne_nil _ _) fun h => nomatch h

mutual

theorem errors_fieldValue_eq_nil_iff
    (hvisit : ∀ v, (visit v).errors = [] ↔ IsExpression policy (level + 1) v) :
    ∀ (kind : FieldKind) (value : Json),
      (fieldValue policy visit kind value).errors = [] ↔ Fits policy level kind value
  | .expression, value => by
      rw [fieldValue_expression, errors_map, hvisit]
      exact ⟨.expression, fun | .expression h => h⟩
  | .sequence length, value => by
      cases value with
      | array items =>
          rcases length_cases length items with hlength | ⟨expected, rfl, hne⟩
          · rw [fieldValue_sequence hlength, errors_map, errors_expressions_eq_nil_iff]
            simp only [hvisit]
            exact ⟨.sequence hlength, fun | .sequence _ hitems => hitems⟩
          · rw [fieldValue_sequence_of_length_ne hne]
            exact iff_of_false (List.cons_ne_nil _ _)
              fun | .sequence h _ => absurd (h _ rfl) hne
      | _ => exact iff_of_false (List.cons_ne_nil _ _) fun h => nomatch h
  | .oneOf allowed, value => by
      cases value with
      | string s =>
          by_cases hs : s ∈ allowed
          · rw [fieldValue_oneOf_of_mem hs]
            exact ⟨fun _ => .oneOf hs, fun _ => rfl⟩
          · rw [fieldValue_oneOf_of_not_mem hs]
            exact iff_of_false (List.cons_ne_nil _ _) fun | .oneOf h => absurd h hs
      | _ => exact iff_of_false (List.cons_ne_nil _ _) fun h => nomatch h
  | .text, value => by
      cases value with
      | string s => exact ⟨fun _ => .text, fun _ => rfl⟩
      | _ => exact iff_of_false (List.cons_ne_nil _ _) fun h => nomatch h
  | .identifier, value => by
      cases value with
      | string s =>
          by_cases hs : isIdentifier s = true
          · rw [fieldValue_identifier_of_pos hs]
            exact ⟨fun _ => .identifier ((isIdentifier_iff s).mp hs), fun _ => rfl⟩
          · rw [fieldValue_identifier_of_neg hs]
            exact iff_of_false (List.cons_ne_nil _ _)
              fun | .identifier h => absurd ((isIdentifier_iff s).mpr h) hs
      | _ => exact iff_of_false (List.cons_ne_nil _ _) fun h => nomatch h
  | .shape specs, value => by
      cases value with
      | object members =>
          rw [fieldValue_shape, errors_followedBy, errors_map, errors_gather,
            List.append_eq_nil_iff, List.flatMap_eq_nil_iff,
            errors_fieldValues_eq_nil_iff hvisit specs members, undeclared_eq_nil_iff]
          constructor
          · rintro ⟨⟨hrequired, hfields⟩, hdeclared⟩
            exact .shape hrequired hfields hdeclared
          · intro h
            cases h with
            | shape hrequired hfields hdeclared => exact ⟨⟨hrequired, hfields⟩, hdeclared⟩
      | _ => exact iff_of_false (List.cons_ne_nil _ _) fun h => nomatch h
  | .optional inner, value => by
      rw [fieldValue_optional, errors_fieldValue_eq_nil_iff hvisit inner value]
      exact ⟨.optional, fun | .optional h => h⟩

theorem errors_fieldValues_eq_nil_iff
    (hvisit : ∀ v, (visit v).errors = [] ↔ IsExpression policy (level + 1) v) :
    ∀ (specs : List FieldSpec) (members : List (String × Json)),
      (∀ f ∈ fieldValues policy visit specs members, f.errors = [])
        ↔ RequiredPresent specs members
          ∧ ∀ spec ∈ specs, ∀ value, Json.member? spec.1 members = some value →
            Fits policy level spec.2 value
  | [], members => by simp [fieldValues, RequiredPresent]
  | (name, kind) :: rest, members => by
      have ih := errors_fieldValues_eq_nil_iff hvisit rest members
      unfold fieldValues
      rw [requiredPresent_cons, List.forall_mem_cons]
      cases hmember : Json.member? name members with
      | none =>
          by_cases hrequired : kind.isRequired = true
          · simp [hrequired, missing]
          · simp [hrequired, ih]
      | some value =>
          simp only [List.forall_mem_cons, errors_under, errors_map, List.map_eq_nil_iff, ih,
            errors_fieldValue_eq_nil_iff hvisit kind value, Option.some.injEq, forall_eq']
          constructor
          · rintro ⟨hvalue, hrequired, hfields⟩
            exact ⟨⟨fun _ => ⟨value, rfl⟩, hrequired⟩, hvalue, hfields⟩
          · rintro ⟨⟨_, hrequired⟩, hvalue, hfields⟩
            exact ⟨hvalue, hrequired, hfields⟩

end

end fields

/-! ### Nodes -/

section nodes

variable {visit : Visitor} {level : Nat} {members : List (String × Json)}
  (hvisit : ∀ v, (visit v).errors = [] ↔ IsExpression policy (level + 1) v)

include hvisit

/-- That the level is allowed follows from the condition, which stands a level below. -/
theorem errors_conditional_eq_nil_iff
    (hfunction : Json.member? "function" members = some (.string conditionalWord)) :
    (conditional policy visit members).errors = [] ↔ IsConditional policy level members := by
  have helse : ∀ value, ((branch policy visit value).map some).errors = []
      ↔ IsBranch policy (level + 1) value := errors_branch_eq_nil_iff hvisit
  rw [errors_conditional]
  simp only [List.append_eq_nil_iff, errors_member_missing_eq_nil_iff,
    errors_member_accept_eq_nil_iff, undeclared_eq_nil_iff, hvisit,
    errors_branch_eq_nil_iff hvisit, helse]
  constructor
  · rintro ⟨⟨⟨condition, hif, hcondition⟩, ⟨thenBranch, hthen, hthenBranch⟩, helse⟩, hdeclared⟩
    have hlevel := hcondition.level_le
    exact .intro (by omega) hfunction hif hcondition hthen hthenBranch helse hdeclared
  · rintro ⟨_, _, hif, hcondition, hthen, hthenBranch, helse, hdeclared⟩
    exact ⟨⟨⟨_, hif, hcondition⟩, ⟨_, hthen, hthenBranch⟩, helse⟩, hdeclared⟩

variable (hlevel : level ≤ policy.maxDepth)

include hlevel

theorem errors_object_eq_nil_iff :
    (object policy visit members).errors = [] ↔ IsExpression policy level (.object members) := by
  rcases marker_cases members with hfunction | ⟨contract, hcontract, hfunction⟩
    | ⟨hconditional, hcall⟩
  · rw [object_conditional hfunction, errors_map, errors_conditional_eq_nil_iff hvisit hfunction]
    exact ⟨.conditional, fun h => h.isConditional hfunction⟩
  · rw [object_call hcontract hfunction, errors_call, List.append_eq_nil_iff,
      List.flatMap_eq_nil_iff, errors_fieldValues_eq_nil_iff hvisit, undeclared_eq_nil_iff]
    constructor
    · rintro ⟨⟨hrequired, hfields⟩, hdeclared⟩
      exact .call hlevel hcontract hfunction hrequired hfields hdeclared
    · intro h
      obtain ⟨hrequired, hfields, hdeclared⟩ := h.isCall hcontract hfunction
      exact ⟨⟨hrequired, hfields⟩, hdeclared⟩
  · obtain ⟨d, hobject, _⟩ := object_other hconditional hcall
    rw [hobject]
    refine iff_of_false (List.cons_ne_nil _ _) fun h => ?_
    cases h with
    | conditional h =>
        cases h with
        | intro _ h => exact absurd h hconditional
    | call _ hcontract h => exact absurd h (hcall _ hcontract)

theorem errors_node_eq_nil_iff (value : Json) :
    (node policy visit value).errors = [] ↔ IsExpression policy level value := by
  cases value with
  | number n => exact ⟨fun _ => .number hlevel, fun _ => rfl⟩
  | object members => exact errors_object_eq_nil_iff hvisit hlevel
  | _ => exact iff_of_false (List.cons_ne_nil _ _) fun h => nomatch h

end nodes

/-- The budget at a level is what the limit leaves for it and the levels below. -/
theorem errors_expression_eq_nil_iff {budget : Nat} :
    ∀ {level : Nat}, policy.maxDepth + 1 - level = budget → ∀ value : Json,
      (expression policy budget value).errors = [] ↔ IsExpression policy level value := by
  induction budget with
  | zero =>
      intro level hbudget value
      refine iff_of_false (List.cons_ne_nil _ _) fun h => ?_
      have hlevel := h.level_le
      omega
  | succ budget ih =>
      intro level hbudget value
      exact errors_node_eq_nil_iff (ih (by omega)) (by omega) value

/-! ### Documents -/

theorem errors_string_eq_nil_iff (value : Json) :
    (string value).errors = [] ↔ ∃ s, value = .string s := by
  cases value with
  | string s => exact ⟨fun _ => ⟨s, rfl⟩, fun _ => rfl⟩
  | _ => exact iff_of_false (List.cons_ne_nil _ _) fun ⟨_, h⟩ => nomatch h

theorem errors_root_eq_nil_iff (value : Json) :
    (root policy value).errors = []
      ↔ ∃ members, value = .object members ∧ IsConditional policy 1 members := by
  rcases root_cases value with ⟨members, rfl, hfunction⟩ | hother
  · have hlevel : policy.maxDepth + 1 - 2 = policy.maxDepth - 1 := rfl
    have hvisit := errors_expression_eq_nil_iff hlevel
    rw [root_conditional hfunction]
    refine (errors_conditional_eq_nil_iff hvisit hfunction).trans ⟨fun h => ⟨members, rfl, h⟩, ?_⟩
    rintro ⟨_, heq, h⟩
    cases heq
    exact h
  · rw [root_other hother]
    refine iff_of_false (List.cons_ne_nil _ _) ?_
    rintro ⟨members, rfl, h⟩
    cases h with
    | intro _ hfunction => exact absurd hfunction (hother members rfl)

theorem errors_strategy_eq_nil_iff (document : Json) :
    (strategy policy document).errors = [] ↔ IsDocument policy document := by
  cases document with
  | object members =>
      simp only [strategy, errors_map, errors_followedBy, errors_both, List.append_eq_nil_iff,
        errors_member_missing_eq_nil_iff, errors_string_eq_nil_iff, errors_root_eq_nil_iff,
        undeclared_eq_nil_iff]
      constructor
      · rintro ⟨⟨⟨_, hname, name, rfl⟩, ⟨_, hauthor, author, rfl⟩, _, hstrategy, root, rfl, hroot⟩,
          hdeclared⟩
        exact .intro hname hauthor hstrategy hroot hdeclared
      · rintro ⟨hname, hauthor, hstrategy, hroot, hdeclared⟩
        exact ⟨⟨⟨_, hname, _, rfl⟩, ⟨_, hauthor, _, rfl⟩, _, hstrategy, _, rfl, hroot⟩, hdeclared⟩
  | _ =>
      refine iff_of_false (List.cons_ne_nil _ _) fun h => ?_
      cases h

/-- **The validator accepts the grammar.**  Under every policy a value is read as a strategy
exactly if it is a strategy document. -/
theorem exists_ofJson?_eq_ok_iff (policy : Policy) (document : Json) :
    (∃ s, Strategy.ofJson? policy document = .ok s) ↔ IsDocument policy document := by
  rw [← errors_strategy_eq_nil_iff]
  exact (coherent_strategy document).exists_result_eq_ok_iff

end StrategyDoc.Grammar
