import StrategyDoc.Proofs.Visits

/-! # Two visits to one value

Under two policies, or with two visits to child expressions, the diagnostics of one value are
related in the same way as those of its parts, as long as the relation goes along with the
walk (`Diagnostic.Congruence`).  The diagnostics under two limits, for one, differ in the limit
that they quote and in nothing else, if the budget is the same
(`errors_expression_withMaxDepth`). -/

namespace StrategyDoc

/-- A relation between diagnostics that goes along with the walk: it holds of what two visits
find if it holds of what they find in the parts. -/
structure Diagnostic.Congruence (R : List Diagnostic → List Diagnostic → Prop) : Prop where
  nil : R [] []
  append : ∀ {as bs as' bs'}, R as bs → R as' bs' → R (as ++ as') (bs ++ bs')
  under : ∀ {as bs} step, R as bs → R (as.map (·.under step)) (bs.map (·.under step))
  /-- Defects that every policy knows are reported by both visits. -/
  same : ∀ d, d.kind ≠ .recursionLimitExceeded → d.kind ≠ .unexpectedField → R [d] [d]

namespace Validation

open Finding

section related

variable {R : List Diagnostic → List Diagnostic → Prop} {policy policy' : Policy}
  {visit visit' : Visitor} {members : List (String × Json)}

theorem related_flatMap {α : Type} (hR : Diagnostic.Congruence R) {fs gs : List (Finding α)}
    (h : List.Forall₂ (fun f g => R f.errors g.errors) fs gs) :
    R (fs.flatMap (·.errors)) (gs.flatMap (·.errors)) := by
  induction h with
  | nil => exact hR.nil
  | cons hfg _ ih => exact hR.append hfg ih

theorem related_missing {α : Type} (hR : Diagnostic.Congruence R) (name : String) :
    R (missing name : Finding α).errors (missing name : Finding α).errors :=
  hR.same _ nofun nofun

theorem related_member {α : Type} (hR : Diagnostic.Congruence R) {name : String}
    {absent : Finding α} {visit visit' : Json → Finding α} (habsent : R absent.errors absent.errors)
    (hvisit : ∀ v, R (visit v).errors (visit' v).errors) :
    R (member name members absent visit).errors (member name members absent visit').errors := by
  rw [errors_member, errors_member]
  cases Json.member? name members with
  | none => exact habsent
  | some value => exact hR.under _ (hvisit value)

/-- What two visits find is related in the child expressions and among the undeclared members. -/
structure RelatedParts (R : List Diagnostic → List Diagnostic → Prop) (policy policy' : Policy)
    (visit visit' : Visitor) : Prop where
  congruence : Diagnostic.Congruence R
  visit : ∀ value, R (visit value).errors (visit' value).errors
  undeclared : ∀ declared members,
    R (undeclared policy declared members) (undeclared policy' declared members)

variable (h : RelatedParts R policy policy' visit visit')

include h

theorem related_expressions (items : List Json) :
    R (expressions visit items).errors (expressions visit' items).errors := by
  suffices hsteps : ∀ step : Nat → Step,
      R ((items.mapIdx fun i item => (visit item).under (step i)).flatMap (·.errors))
        ((items.mapIdx fun i item => (visit' item).under (step i)).flatMap (·.errors)) from
    hsteps .index
  induction items with
  | nil => exact fun _ => h.congruence.nil
  | cons item items ih =>
      intro step
      rw [List.mapIdx_cons, List.mapIdx_cons, List.flatMap_cons, List.flatMap_cons]
      exact h.congruence.append (h.congruence.under _ (h.visit item)) (ih fun i => step (i + 1))

theorem related_branch (hallow : policy.allowEmptyBranches = policy'.allowEmptyBranches)
    (value : Json) : R (branch policy visit value).errors (branch policy' visit' value).errors := by
  cases value with
  | array items =>
      rcases branch_cases policy items with hallowed | ⟨hnil, hforbidden⟩
      · rw [branch_array_of_allowed hallowed, branch_array_of_allowed (hallow ▸ hallowed)]
        exact related_expressions h items
      · rw [branch_array_of_forbidden hnil hforbidden,
          branch_array_of_forbidden hnil (hallow ▸ hforbidden)]
        exact h.congruence.same _ nofun nofun
  | _ => exact h.congruence.same _ nofun nofun

/-- The visits to the branches are compared apart, as they depend on another part of the
policy. -/
theorem related_conditional
    (hbranch : ∀ value, R (branch policy visit value).errors (branch policy' visit' value).errors)
    (members : List (String × Json)) :
    R (conditional policy visit members).errors (conditional policy' visit' members).errors := by
  have hR := h.congruence
  rw [errors_conditional, errors_conditional]
  refine hR.append (hR.append ?_ (hR.append ?_ ?_)) (h.undeclared _ _)
  · exact related_member hR (related_missing hR _) h.visit
  · exact related_member hR (related_missing hR _) hbranch
  · exact related_member hR hR.nil hbranch

mutual

theorem related_fieldValue : ∀ (kind : FieldKind) (value : Json),
    R (fieldValue policy visit kind value).errors (fieldValue policy' visit' kind value).errors
  | .expression, value => by
      rw [fieldValue_expression, fieldValue_expression]
      exact h.visit value
  | .sequence length, value => by
      cases value with
      | array items =>
          rcases length_cases length items with hlength | ⟨expected, rfl, hne⟩
          · rw [fieldValue_sequence hlength, fieldValue_sequence hlength]
            exact related_expressions h items
          · rw [fieldValue_sequence_of_length_ne hne, fieldValue_sequence_of_length_ne hne]
            exact h.congruence.same _ nofun nofun
      | _ => exact h.congruence.same _ nofun nofun
  | .oneOf allowed, value => by
      cases value with
      | string s =>
          by_cases hs : s ∈ allowed
          · rw [fieldValue_oneOf_of_mem hs, fieldValue_oneOf_of_mem hs]
            exact h.congruence.nil
          · rw [fieldValue_oneOf_of_not_mem hs, fieldValue_oneOf_of_not_mem hs]
            exact h.congruence.same _ nofun nofun
      | _ => exact h.congruence.same _ nofun nofun
  | .text, value => by
      cases value with
      | string s => exact h.congruence.nil
      | _ => exact h.congruence.same _ nofun nofun
  | .identifier, value => by
      cases value with
      | string s =>
          by_cases hs : isIdentifier s = true
          · rw [fieldValue_identifier_of_pos hs, fieldValue_identifier_of_pos hs]
            exact h.congruence.nil
          · rw [fieldValue_identifier_of_neg hs, fieldValue_identifier_of_neg hs]
            exact h.congruence.same _ nofun nofun
      | _ => exact h.congruence.same _ nofun nofun
  | .shape specs, value => by
      cases value with
      | object members =>
          rw [fieldValue_shape, fieldValue_shape]
          exact h.congruence.append
            (related_flatMap h.congruence (related_fieldValues specs members)) (h.undeclared _ _)
      | _ => exact h.congruence.same _ nofun nofun
  | .optional inner, value => by
      rw [fieldValue_optional, fieldValue_optional]
      exact related_fieldValue inner value

theorem related_fieldValues : ∀ (specs : List FieldSpec) (members : List (String × Json)),
    List.Forall₂ (fun f g => R f.errors g.errors) (fieldValues policy visit specs members)
      (fieldValues policy' visit' specs members)
  | [], _ => by
      rw [fieldValues, fieldValues]
      exact .nil
  | (name, kind) :: rest, members => by
      have ih := related_fieldValues rest members
      rw [fieldValues, fieldValues]
      cases Json.member? name members with
      | none =>
          dsimp only
          split
          · exact .cons (related_missing h.congruence name) ih
          · exact ih
      | some value => exact .cons (h.congruence.under _ (related_fieldValue kind value)) ih

end

theorem related_object
    (hbranch : ∀ value, R (branch policy visit value).errors (branch policy' visit' value).errors)
    (members : List (String × Json)) :
    R (object policy visit members).errors (object policy' visit' members).errors := by
  have hR := h.congruence
  rcases marker_cases members with hf | ⟨contract, hcontract, hf⟩ | ⟨hconditional, hcall⟩
  · rw [object_conditional hf, object_conditional hf]
    exact related_conditional h hbranch members
  · rw [object_call hcontract hf, object_call hcontract hf, errors_call, errors_call]
    exact hR.append (related_flatMap hR (related_fieldValues h _ _)) (h.undeclared _ _)
  · obtain ⟨d, hobject, hlimit, hunexpected⟩ := object_other hconditional hcall
    rw [hobject, hobject]
    exact hR.same d hlimit hunexpected

/-- What two visits find in a node is related if what they find in its parts is. -/
theorem related_node
    (hbranch : ∀ value, R (branch policy visit value).errors (branch policy' visit' value).errors)
    (value : Json) : R (node policy visit value).errors (node policy' visit' value).errors := by
  cases value with
  | number n => exact h.congruence.nil
  | object members => exact related_object h hbranch members
  | _ => exact h.congruence.same _ nofun nofun

end related

section documents

variable {R : List Diagnostic → List Diagnostic → Prop} {policy policy' : Policy}
  (h : RelatedParts R policy policy' (expression policy (policy.maxDepth - 1))
    (expression policy' (policy'.maxDepth - 1)))
  (hbranch : ∀ value, R (branch policy (expression policy (policy.maxDepth - 1)) value).errors
    (branch policy' (expression policy' (policy'.maxDepth - 1)) value).errors)

include h hbranch

theorem related_root (value : Json) : R (root policy value).errors (root policy' value).errors := by
  rcases root_cases value with ⟨members, rfl, hfunction⟩ | hother
  · rw [root_conditional hfunction, root_conditional hfunction]
    exact related_conditional h hbranch members
  · rw [root_other hother, root_other hother]
    exact h.congruence.same _ nofun nofun

/-- What two visits find in a document is related if what they find in its parts is. -/
theorem related_strategy (document : Json) :
    R (strategy policy document).errors (strategy policy' document).errors := by
  have hR := h.congruence
  have hstring : ∀ value, R (string value).errors (string value).errors := by
    intro value
    cases value with
    | string s => exact hR.nil
    | _ => exact hR.same _ nofun nofun
  cases document with
  | object members =>
      rw [errors_strategy, errors_strategy]
      refine hR.append (hR.append ?_ (hR.append ?_ ?_)) (h.undeclared _ _)
      · exact related_member hR (related_missing hR _) hstring
      · exact related_member hR (related_missing hR _) hstring
      · exact related_member hR (related_missing hR _) (related_root h hbranch)
  | _ => exact hR.same _ nofun nofun

end documents

end Validation

/-! ### Two limits -/

/-- The diagnostic, quoting another limit if it quotes one. -/
def Diagnostic.requote (limit : Nat) (d : Diagnostic) : Diagnostic :=
  if d.kind = .recursionLimitExceeded then { d with message := (Defect.tooDeep limit).message }
  else d

section limits

variable {limit : Nat}

theorem Diagnostic.requote_of_ne {d : Diagnostic} (h : d.kind ≠ .recursionLimitExceeded) :
    d.requote limit = d := if_neg h

theorem Diagnostic.requote_under (step : Step) (d : Diagnostic) :
    (d.under step).requote limit = (d.requote limit).under step := by
  unfold requote under
  dsimp only
  split
  · rfl
  · rfl

theorem Diagnostic.congruence_requote (limit : Nat) :
    Congruence fun as bs => as = bs.map (requote limit) where
  nil := rfl
  append h h' := by rw [h, h', List.map_append]
  under step h := by
    rw [h, List.map_map, List.map_map]
    exact List.map_congr_left fun d _ => (requote_under step d).symm
  same d h _ := by rw [List.map_singleton, requote_of_ne h]

namespace Validation

/-- **The limit in diagnostics.**  With the same budget, another limit in the policy is quoted
in diagnostics and has no other effect. -/
theorem errors_expression_withMaxDepth (policy : Policy) (limit budget : Nat) (value : Json) :
    (expression policy budget value).errors
      = (expression (policy.withMaxDepth limit) budget value).errors.map
          (Diagnostic.requote policy.maxDepth) := by
  induction budget generalizing value with
  | zero => rfl
  | succ budget ih =>
      have h : RelatedParts (fun as bs => as = bs.map (Diagnostic.requote policy.maxDepth)) policy
          (policy.withMaxDepth limit) (expression policy budget)
          (expression (policy.withMaxDepth limit) budget) := by
        refine ⟨Diagnostic.congruence_requote _, ih, fun declared members => ?_⟩
        have hself : ∀ d ∈ undeclared policy declared members,
            d.requote policy.maxDepth = d := by
          intro d hd
          refine Diagnostic.requote_of_ne ?_
          rw [(unexpected_of_mem_undeclared d hd).2]
          exact nofun
        exact ((List.map_congr_left hself).trans (List.map_id _)).symm
      exact related_node h (related_branch h rfl) value

end Validation

end limits

end StrategyDoc
