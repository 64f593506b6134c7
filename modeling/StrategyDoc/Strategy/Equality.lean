import StrategyDoc.Strategy.Basic

/-! # Equality of strategies

Whether two expressions are equal is decided by comparing them part by part. -/

namespace StrategyDoc

mutual

/-- The two expressions are the same. -/
def Expression.same : Expression → Expression → Bool
  | .number a, .number b => a == b
  | .call f fs, .call g gs => f == g && FieldValue.sameFields fs gs
  | .conditional c t none, .conditional c' t' none => c.same c' && Expression.sameAll t t'
  | .conditional c t (some e), .conditional c' t' (some e') =>
    c.same c' && Expression.sameAll t t' && Expression.sameAll e e'
  | _, _ => false

def Expression.sameAll : List Expression → List Expression → Bool
  | [], [] => true
  | a :: as, b :: bs => a.same b && Expression.sameAll as bs
  | _, _ => false

/-- The two field values are the same. -/
def FieldValue.same : FieldValue → FieldValue → Bool
  | .expression a, .expression b => a.same b
  | .sequence as, .sequence bs => Expression.sameAll as bs
  | .choice a, .choice b => a == b
  | .text a, .text b => a == b
  | .shape fs, .shape gs => FieldValue.sameFields fs gs
  | _, _ => false

def FieldValue.sameFields : List (String × FieldValue) → List (String × FieldValue) → Bool
  | [], [] => true
  | (n, a) :: as, (m, b) :: bs => n == m && a.same b && FieldValue.sameFields as bs
  | _, _ => false

end

mutual

theorem Expression.same_iff : ∀ a b : Expression, a.same b = true ↔ a = b
  | .number a, b => by cases b <;> simp [Expression.same]
  | .call f fs, b => by
    cases b <;> simp [Expression.same, FieldValue.sameFields_iff fs]
  | .conditional c t none, b => by
    rcases b with _ | _ | ⟨c', t', _ | e'⟩ <;>
      simp [Expression.same, Expression.same_iff c, Expression.sameAll_iff t]
  | .conditional c t (some e), b => by
    rcases b with _ | _ | ⟨c', t', _ | e'⟩ <;>
      simp [Expression.same, Expression.same_iff c, Expression.sameAll_iff t,
        Expression.sameAll_iff e, and_assoc]

theorem Expression.sameAll_iff :
    ∀ as bs : List Expression, Expression.sameAll as bs = true ↔ as = bs
  | [], bs => by cases bs <;> simp [Expression.sameAll]
  | a :: as, bs => by
    cases bs <;> simp [Expression.sameAll, Expression.same_iff a, Expression.sameAll_iff as]

theorem FieldValue.same_iff : ∀ a b : FieldValue, a.same b = true ↔ a = b
  | .expression a, b => by cases b <;> simp [FieldValue.same, Expression.same_iff a]
  | .sequence as, b => by cases b <;> simp [FieldValue.same, Expression.sameAll_iff as]
  | .choice a, b => by cases b <;> simp [FieldValue.same]
  | .text a, b => by cases b <;> simp [FieldValue.same]
  | .shape fs, b => by cases b <;> simp [FieldValue.same, FieldValue.sameFields_iff fs]

theorem FieldValue.sameFields_iff :
    ∀ fs gs : List (String × FieldValue), FieldValue.sameFields fs gs = true ↔ fs = gs
  | [], gs => by cases gs <;> simp [FieldValue.sameFields]
  | (n, a) :: as, gs => by
    rcases gs with _ | ⟨⟨m, b⟩, bs⟩ <;>
      simp [FieldValue.sameFields, FieldValue.same_iff a, FieldValue.sameFields_iff as]

end

instance : DecidableEq Expression := fun a b => decidable_of_iff _ (Expression.same_iff a b)

instance : DecidableEq FieldValue := fun a b => decidable_of_iff _ (FieldValue.same_iff a b)

deriving instance DecidableEq for Conditional, Strategy

end StrategyDoc
