import StrategyDoc.Diagnostic.Defect
import StrategyDoc.Diagnostic.Log

/-! # Findings

A visit to a part of a document finds a value, or diagnostics, or both.  Paths are relative
to the visited part; whoever visits a part of a larger value puts the step to that part in
front (`Finding.under`). -/

namespace StrategyDoc

/-- What a visit found. -/
structure Finding (α : Type) where
  value : Option α
  errors : List Diagnostic

namespace Finding

variable {α β : Type}

/-- A value without defects. -/
def accept (a : α) : Finding α := ⟨some a, []⟩

/-- One defect of the visited part itself. -/
def reject (defect : Defect) : Finding α := ⟨none, [defect.diagnostic]⟩

@[simp] theorem value_accept (a : α) : (accept a).value = some a := rfl

@[simp] theorem errors_accept (a : α) : (accept a).errors = [] := rfl

@[simp] theorem value_reject (defect : Defect) : (reject defect : Finding α).value = none := rfl

@[simp] theorem errors_reject (defect : Defect) :
    (reject defect : Finding α).errors = [defect.diagnostic] := rfl

/-! ### One visit -/

/-- The finding as seen from the value around the visited part. -/
def under (step : Step) (f : Finding α) : Finding α :=
  ⟨f.value, f.errors.map (·.under step)⟩

/-- The same finding with its value transformed. -/
def map (g : α → β) (f : Finding α) : Finding β := ⟨f.value.map g, f.errors⟩

/-- Add diagnostics that do not affect the value. -/
def followedBy (f : Finding α) (errors : List Diagnostic) : Finding α :=
  ⟨f.value, f.errors ++ errors⟩

@[simp] theorem value_under (step : Step) (f : Finding α) : (f.under step).value = f.value := rfl

@[simp] theorem errors_under (step : Step) (f : Finding α) :
    (f.under step).errors = f.errors.map (·.under step) := rfl

@[simp] theorem value_map (g : α → β) (f : Finding α) : (f.map g).value = f.value.map g := rfl

@[simp] theorem errors_map (g : α → β) (f : Finding α) : (f.map g).errors = f.errors := rfl

@[simp] theorem value_followedBy (f : Finding α) (errors : List Diagnostic) :
    (f.followedBy errors).value = f.value := rfl

@[simp] theorem errors_followedBy (f : Finding α) (errors : List Diagnostic) :
    (f.followedBy errors).errors = f.errors ++ errors := rfl

/-! ### Several visits -/

/-- Two visits, one after the other; a value needs both. -/
def both (f : Finding α) (g : Finding β) : Finding (α × β) :=
  ⟨f.value.bind fun a => g.value.map fun b => (a, b), f.errors ++ g.errors⟩

/-- Many visits, one after the other.  Any diagnostic spoils the whole. -/
def gather (fs : List (Finding α)) : Finding (List α) :=
  let errors := fs.flatMap (·.errors)
  ⟨if errors.isEmpty then some (fs.filterMap (·.value)) else none, errors⟩

@[simp] theorem errors_both (f : Finding α) (g : Finding β) :
    (f.both g).errors = f.errors ++ g.errors := rfl

theorem value_both_eq_some_iff {f : Finding α} {g : Finding β} {ab : α × β} :
    (f.both g).value = some ab ↔ f.value = some ab.1 ∧ g.value = some ab.2 := by
  obtain ⟨a, b⟩ := ab
  unfold both
  cases f.value with
  | none => simp
  | some a' =>
    cases g.value with
    | none => simp
    | some b' => simp

@[simp] theorem errors_gather (fs : List (Finding α)) :
    (gather fs).errors = fs.flatMap (·.errors) := rfl

theorem value_gather_eq_some_iff {fs : List (Finding α)} {as : List α} :
    (gather fs).value = some as
      ↔ (∀ f ∈ fs, f.errors = []) ∧ fs.filterMap (·.value) = as := by
  have hempty : (fs.flatMap (·.errors)).isEmpty = true ↔ ∀ f ∈ fs, f.errors = [] := by
    rw [List.isEmpty_iff, List.flatMap_eq_nil_iff]
  unfold gather
  dsimp only
  by_cases h : (fs.flatMap (·.errors)).isEmpty = true
  · rw [if_pos h]
    constructor
    · intro hsome
      exact ⟨hempty.mp h, Option.some.inj hsome⟩
    · rintro ⟨_, hvalues⟩
      rw [hvalues]
  · rw [if_neg h]
    simp only [reduceCtorEq, false_iff, not_and]
    intro hall
    exact absurd (hempty.mpr hall) h

/-! ### The end of a visit -/

/-- The value of a finding without diagnostics, or the diagnostics. -/
def result (f : Finding α) : Except (List Diagnostic) α :=
  (Diagnostic.Log.mk f.errors).conclude f.value

theorem result_eq_ok_iff (f : Finding α) (a : α) :
    f.result = .ok a ↔ f.value = some a ∧ f.errors = [] :=
  Diagnostic.Log.conclude_eq_ok_iff _ _ _

end Finding

end StrategyDoc
