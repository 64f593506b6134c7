import StrategyDoc.Proofs.ThreadedWalk

/-! # Orderly visits

A visit is orderly if it adds to the log and comes back to where it started, if what it adds is
about the visited value, and if the answer agrees with it: without a value there is a new entry,
and beside a value there are undeclared members only (`Walking.Orderly`).  This holds wherever a
visit starts if it finds something coherent (`Walking.Performs.isOrderly`), and so it holds of
all visits of the walk, at every level of nesting (`Walking.orderly_visits`).  In particular a
document is not refused without a diagnostic. -/

namespace StrategyDoc

namespace Walking

variable {α : Type}

/-- What came to the log from one moment to another. -/
def newEntries (before after : Walker) : List Diagnostic :=
  after.log.entries.drop before.log.entries.length

/-- The visit that starts at `before` and ends with an answer at `after` keeps the earlier
entries of the log and comes back to where it started.  What is new is about the visited value;
without a value there is something new, and beside a value there are undeclared members only,
under a strict policy. -/
structure Orderly (strict : Bool) (before : Walker) (answer : Option α) (after : Walker) :
    Prop where
  keeps : before.log.entries <+: after.log.entries
  returns : after.path = before.path
  below : ∀ d ∈ newEntries before after, before.path <+: d.path
  explains : answer = none → newEntries before after ≠ []
  accepts : ∀ a, answer = some a →
    ∀ d ∈ newEntries before after, strict = true ∧ d.kind = .unexpectedField

/-- The visit is orderly wherever it starts. -/
def IsOrderly (strict : Bool) (visit : Walking (Option α)) : Prop :=
  ∀ before : Walker, Orderly strict before (visit.run before).1 (visit.run before).2

/-- A visit on its own, from the root and with an empty log. -/
def result (visit : Walking (Option α)) : Except (List Diagnostic) α :=
  (visit.run .start).2.log.conclude (visit.run .start).1

namespace Performs

variable {visit : Walking (Option α)} {f : Finding α}

theorem isOrderly {strict : Bool} (h : Performs visit f) (hf : Finding.Coherent strict f) :
    IsOrderly strict visit := by
  intro before
  rw [h before]
  have hnew : newEntries before
      ⟨before.path, ⟨before.log.entries ++ f.errors.map (·.behind before.path)⟩⟩
        = f.errors.map (·.behind before.path) := List.drop_left
  refine ⟨List.prefix_append _ _, rfl, ?below, ?explains, ?accepts⟩
  case below =>
    rw [hnew]
    intro d hd
    obtain ⟨e, -, rfl⟩ := List.mem_map.mp hd
    exact List.prefix_append _ _
  case explains =>
    intro hnone
    rw [hnew, Ne, List.map_eq_nil_iff]
    exact hf.errors_ne_nil hnone
  case accepts =>
    intro a ha
    rw [hnew]
    intro d hd
    obtain ⟨e, he, rfl⟩ := List.mem_map.mp hd
    exact hf.unexpected a ha e he

theorem result_eq (h : Performs visit f) : visit.result = f.result := by
  have hroot : f.errors.map (·.behind []) = f.errors := List.map_id' f.errors
  rw [result, h, Finding.result]
  show Diagnostic.Log.conclude ⟨[] ++ f.errors.map (·.behind [])⟩ f.value = _
  rw [hroot, List.nil_append]

end Performs

theorem result_ne_error_nil {strict : Bool} {f : Finding α} (hf : Finding.Coherent strict f) :
    f.result ≠ .error [] := by
  intro hresult
  have hnil : f.errors = [] := by rw [← Finding.ofResult_result, hresult, Diagnostic.ofResult]
  obtain ⟨a, ha⟩ := hf.exists_result_eq_ok_iff.mpr hnil
  rw [hresult] at ha
  cases ha

/-- **All visits are orderly.**  The walk gives the same verdicts, and a refusal says why. -/
theorem orderly_visits (policy : Policy) :
    (∀ document, (strategy policy document).result = Strategy.ofJson? policy document ∧
      Strategy.ofJson? policy document ≠ .error []) ∧
    (∀ value, (expression policy 1 value).result = Expression.ofJson? policy value ∧
      Expression.ofJson? policy value ≠ .error []) ∧
    ∀ level : Nat,
      (∀ value, IsOrderly policy.strict (expression policy level value)) ∧
      (∀ members,
        IsOrderly policy.strict (conditional policy (expression policy (level + 1)) members)) ∧
      (∀ value, IsOrderly policy.strict (branch policy (expression policy (level + 1)) value)) ∧
      (∀ contract members,
        IsOrderly policy.strict (call policy (expression policy (level + 1)) contract members)) ∧
      (∀ specs members,
        IsOrderly policy.strict (fields policy (expression policy (level + 1)) specs members)) ∧
      (∀ kind value,
        IsOrderly policy.strict (fieldValue policy (expression policy (level + 1)) kind value)) ∧
      (∀ values, IsOrderly policy.strict (elements (expression policy (level + 1)) values)) := by
  refine ⟨fun document => ?_, fun value => ?_, fun level => ?_⟩
  · exact ⟨(performs_strategy document).result_eq,
      result_ne_error_nil (Validation.coherent_strategy document)⟩
  · exact ⟨(performs_expression policy 1 value).result_eq,
      result_ne_error_nil (Validation.coherent_expression _ value)⟩
  · have hchild := performs_expression policy (level + 1)
    have hcoherent : ∀ value, Finding.Coherent policy.strict
        (Validation.expression policy (policy.maxDepth + 1 - (level + 1)) value) :=
      Validation.coherent_expression _
    refine ⟨fun value => ?_, fun members => ?_, fun value => ?_, fun contract members => ?_,
      fun specs members => ?_, fun kind value => ?_, fun values => ?_⟩
    · exact (performs_expression policy level value).isOrderly
        (Validation.coherent_expression _ value)
    · exact (performs_conditional hchild members).isOrderly
        (Validation.coherent_conditional hcoherent members)
    · exact (performs_branch hchild value).isOrderly (Validation.coherent_branch value)
    · exact (performs_call hchild contract members).isOrderly
        (Validation.coherent_call contract members)
    · exact (collects_fieldValues hchild specs members).unlessGrown.isOrderly (.gather _)
    · exact (performs_fieldValue hchild kind value).isOrderly
        (Validation.coherent_fieldValue hcoherent kind value)
    · exact (performs_elements hchild values).isOrderly (Validation.coherent_expressions values)

end Walking

end StrategyDoc
