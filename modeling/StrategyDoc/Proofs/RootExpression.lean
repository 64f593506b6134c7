import StrategyDoc.Proofs.Representation

/-! # The root of a strategy as an expression

The root of a strategy is visited apart from other expressions: it must be a conditional, and
it is not held against the limit on nesting.  As long as the limit leaves a level for it, this
makes no difference: what is found in a conditional at the root is what is found in it as an
expression (`Validation.expression_eq_root`).  So a strategy is read, or refused, exactly as
its root alone is (`Strategy.ofJson?_strategyDocument`). -/

namespace StrategyDoc

/-- The document of a strategy with the name, the author and the root. -/
def Json.strategyDocument (name author : String) (root : Json) : Json :=
  .object [("author", .string author), ("name", .string name), ("strategy", root)]

/-! ### The end of a visit -/

namespace Finding

variable {α β : Type}

theorem result_map (g : α → β) (f : Finding α) : (f.map g).result = f.result.map g := by
  obtain ⟨value, errors⟩ := f
  cases value with
  | none => rfl
  | some a => cases errors <;> rfl

theorem result_under (step : Step) (f : Finding α) :
    (f.under step).result = f.result.mapError (List.map (·.under step)) := by
  obtain ⟨value, errors⟩ := f
  cases value with
  | none => rfl
  | some a => cases errors <;> rfl

end Finding

/-! ### Two ways to the root -/

namespace Validation

open Finding

variable {policy : Policy}

theorem expression_eq_root (hlimit : 1 ≤ policy.maxDepth) {members : List (String × Json)}
    (hfunction : Json.member? "function" members = some (.string conditionalWord)) :
    expression policy policy.maxDepth (.object members)
      = (root policy (.object members)).map (·.toExpression) :=
  calc expression policy policy.maxDepth (.object members)
      = expression policy (policy.maxDepth - 1 + 1) (.object members) := by
        rw [Nat.sub_add_cancel hlimit]
    _ = object policy (expression policy (policy.maxDepth - 1)) members := rfl
    _ = (root policy (.object members)).map (·.toExpression) := by
        rw [object_conditional hfunction, root_conditional hfunction]

theorem strategy_strategyDocument (name author : String) (value : Json) :
    strategy policy (Json.strategyDocument name author value)
      = ((root policy value).under (.field "strategy")).map fun tree => ⟨name, author, tree⟩ := by
  have hdeclared : undeclared policy strategyFields
      [("author", .string author), ("name", .string name), ("strategy", value)] = [] := by
    rw [undeclared_eq_nil_iff]
    intro _
    simp [strategyFields]
  have hparts : ∀ tree : Finding Conditional,
      (((accept name).both ((accept author).both tree)).followedBy []).map
          (fun parts => (⟨parts.1, parts.2.1, parts.2.2⟩ : Strategy))
        = tree.map fun tree => ⟨name, author, tree⟩ := by
    intro tree
    obtain ⟨value, errors⟩ := tree
    cases value <;> simp [both, followedBy, map, accept]
  rw [← hparts, ← hdeclared]
  rfl

end Validation

/-- **The root is an expression like others.**  A strategy document is accepted exactly if its
root is as an expression, and is read as the same conditional then; otherwise what is wrong
with the document is what is wrong with the root, at the member of the root. -/
theorem Strategy.ofJson?_strategyDocument (policy : Policy) (hlimit : 1 ≤ policy.maxDepth)
    (name author : String) {members : List (String × Json)}
    (hfunction : Json.member? "function" members = some (.string conditionalWord)) :
    (∀ s, ofJson? policy (Json.strategyDocument name author (.object members)) = .ok s
      ↔ s.name = name ∧ s.author = author
        ∧ Expression.ofJson? policy (.object members) = .ok s.root.toExpression)
    ∧ (∀ e, Expression.ofJson? policy (.object members) = .ok e →
      ∃ s, ofJson? policy (Json.strategyDocument name author (.object members)) = .ok s
        ∧ s.root.toExpression = e)
    ∧ ∀ ds, ofJson? policy (Json.strategyDocument name author (.object members)) = .error ds
      ↔ ∃ es, Expression.ofJson? policy (.object members) = .error es
        ∧ ds = es.map (·.under (.field "strategy")) := by
  rw [ofJson?, Validation.strategy_strategyDocument, Finding.result_map, Finding.result_under,
    Expression.ofJson?, Validation.expression_eq_root hlimit hfunction, Finding.result_map]
  cases (Validation.root policy (.object members)).result with
  | ok c =>
      refine ⟨fun s => ⟨?_, ?_⟩, fun e he => ?_, fun ds => ⟨?_, ?_⟩⟩
      · rintro ⟨⟩
        exact ⟨rfl, rfl, rfl⟩
      · rintro ⟨rfl, rfl, hroot⟩
        rw [Conditional.toExpression_injective (Except.ok.inj hroot)]
        rfl
      · exact ⟨⟨name, author, c⟩, rfl, Except.ok.inj he⟩
      · rintro ⟨⟩
      · rintro ⟨_, ⟨⟩, _⟩
  | error es =>
      refine ⟨fun s => ⟨?_, ?_⟩, fun e he => ?_, fun ds => ⟨?_, ?_⟩⟩
      · rintro ⟨⟩
      · rintro ⟨_, _, ⟨⟩⟩
      · cases he
      · rintro ⟨⟩
        exact ⟨es, rfl, rfl⟩
      · rintro ⟨_, ⟨⟩, rfl⟩
        rfl

/-- The members of a conditional on a conditional, three levels in all. -/
def Json.doubleCondition : List (String × Json) :=
  [("function", .string conditionalWord),
    ("if", .object [("function", .string conditionalWord), ("if", .number (.integer 1)),
      ("then", .array [])]),
    ("then", .array [])]

/-- With two levels the inner condition is too deep in the document as it is in the root, and
with three both are accepted. -/
theorem Strategy.ofJson?_doubleCondition :
    (1 ≤ 2 ∧ 1 ≤ 3
      ∧ Json.member? "function" Json.doubleCondition = some (.string conditionalWord))
    ∧ ofJson? ⟨true, 2, true⟩
        (Json.strategyDocument "twice" "nobody" (.object Json.doubleCondition))
      = .error [⟨[.field "strategy", .field "if", .field "if"], .recursionLimitExceeded,
          (Defect.tooDeep 2).message⟩]
    ∧ ∃ s, ofJson? ⟨true, 3, true⟩
        (Json.strategyDocument "twice" "nobody" (.object Json.doubleCondition)) = .ok s
      ∧ s.name = "twice" ∧ s.root.depth = 3 := by
  have hlimit : 1 ≤ 2 := by decide
  have hlimit' : 1 ≤ 3 := by decide
  have hfunction : Json.member? "function" Json.doubleCondition
      = some (.string conditionalWord) := rfl
  have hrefused : Expression.ofJson? ⟨true, 2, true⟩ (.object Json.doubleCondition)
      = .error [⟨[.field "if", .field "if"], .recursionLimitExceeded,
          (Defect.tooDeep 2).message⟩] := rfl
  have hread : Expression.ofJson? ⟨true, 3, true⟩ (.object Json.doubleCondition)
      = .ok (.conditional (.conditional (.number (.integer 1)) [] none) [] none) := rfl
  obtain ⟨_, _, herror⟩ := ofJson?_strategyDocument ⟨true, 2, true⟩ hlimit "twice" "nobody"
    hfunction
  obtain ⟨hok, hexists, _⟩ := ofJson?_strategyDocument ⟨true, 3, true⟩ hlimit' "twice" "nobody"
    hfunction
  obtain ⟨s, hs, hroot⟩ := hexists _ hread
  refine ⟨⟨hlimit, hlimit', hfunction⟩, (herror _).mpr ⟨_, hrefused, rfl⟩, s, hs, ?_, ?_⟩
  · exact ((hok s).mp hs).1
  · show s.root.toExpression.depth = 3
    rw [hroot]
    decide

end StrategyDoc
