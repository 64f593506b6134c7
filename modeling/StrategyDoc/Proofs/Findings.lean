import StrategyDoc.Validation.Finding

/-! # Accepting findings

A finding accepts a value when it has the value and no diagnostic.  Each way of combining
findings accepts exactly when its parts do (`both_eq_accept_iff`, `gather_cons_eq_accept_iff`
and so on).  For several findings in a row this needs that a finding without a value has a
diagnostic, which is half of `Coherent`; the other half says which diagnostics can stand
beside a value. -/

namespace StrategyDoc

/-- The diagnostics behind a refusal; an acceptance has none. -/
def Diagnostic.ofResult {α : Type} : Except (List Diagnostic) α → List Diagnostic
  | .ok _ => []
  | .error errors => errors

namespace Finding

variable {α β : Type}

/-! ### One visit -/

theorem eq_accept_iff {f : Finding α} {a : α} :
    f = accept a ↔ f.value = some a ∧ f.errors = [] := by
  constructor
  · rintro rfl
    exact ⟨rfl, rfl⟩
  · intro ⟨hvalue, herrors⟩
    obtain ⟨value, errors⟩ := f
    cases hvalue
    cases herrors
    rfl

@[simp] theorem accept_eq_accept_iff {a b : α} : accept a = accept b ↔ a = b := by
  rw [eq_accept_iff]
  simp

@[simp] theorem reject_ne_accept (defect : Defect) (a : α) : reject defect ≠ accept a := by
  rw [Ne, eq_accept_iff]
  simp

@[simp] theorem under_eq_accept_iff {step : Step} {f : Finding α} {a : α} :
    f.under step = accept a ↔ f = accept a := by
  rw [eq_accept_iff, eq_accept_iff, value_under, errors_under, List.map_eq_nil_iff]

theorem map_eq_accept_iff {g : α → β} {f : Finding α} {b : β} :
    f.map g = accept b ↔ ∃ a, f = accept a ∧ g a = b := by
  simp only [eq_accept_iff, value_map, errors_map, Option.map_eq_some_iff]
  constructor
  · rintro ⟨⟨a, hvalue, hb⟩, herrors⟩
    exact ⟨a, ⟨hvalue, herrors⟩, hb⟩
  · rintro ⟨a, ⟨hvalue, herrors⟩, hb⟩
    exact ⟨⟨a, hvalue, hb⟩, herrors⟩

theorem followedBy_eq_accept_iff {f : Finding α} {errors : List Diagnostic} {a : α} :
    f.followedBy errors = accept a ↔ f = accept a ∧ errors = [] := by
  simp only [eq_accept_iff, value_followedBy, errors_followedBy, List.append_eq_nil_iff, and_assoc]

/-! ### Coherent findings -/

/-- Without a value there is a diagnostic.  Beside a value there are only undeclared members,
and those only under a strict policy. -/
structure Coherent (strict : Bool) (f : Finding α) : Prop where
  errors_ne_nil : f.value = none → f.errors ≠ []
  unexpected : ∀ a, f.value = some a →
    ∀ d ∈ f.errors, strict = true ∧ d.kind = .unexpectedField

namespace Coherent

variable {strict : Bool} {f : Finding α} {g : Finding β}

theorem accept (a : α) : Coherent strict (accept a) where
  errors_ne_nil h := by cases h
  unexpected _ _ _ h := by cases h

theorem reject (defect : Defect) : Coherent strict (reject defect : Finding α) where
  errors_ne_nil _ := List.cons_ne_nil _ _
  unexpected _ h := by cases h

theorem under (step : Step) (h : Coherent strict f) : Coherent strict (f.under step) where
  errors_ne_nil hnone := by
    rw [errors_under, Ne, List.map_eq_nil_iff]
    exact h.errors_ne_nil hnone
  unexpected a ha d hd := by
    obtain ⟨e, he, rfl⟩ := List.mem_map.mp hd
    exact h.unexpected a ha e he

theorem map (g : α → β) (h : Coherent strict f) : Coherent strict (f.map g) where
  errors_ne_nil hnone := h.errors_ne_nil (Option.map_eq_none_iff.mp hnone)
  unexpected b hb := by
    obtain ⟨a, ha, _⟩ := Option.map_eq_some_iff.mp hb
    exact h.unexpected a ha

theorem followedBy {errors : List Diagnostic} (h : Coherent strict f)
    (herrors : ∀ d ∈ errors, strict = true ∧ d.kind = .unexpectedField) :
    Coherent strict (f.followedBy errors) where
  errors_ne_nil hnone := by
    rw [errors_followedBy, Ne, List.append_eq_nil_iff]
    exact fun hnil => h.errors_ne_nil hnone hnil.1
  unexpected a ha d hd := by
    rcases List.mem_append.mp hd with hd | hd
    · exact h.unexpected a ha d hd
    · exact herrors d hd

theorem both (hf : Coherent strict f) (hg : Coherent strict g) : Coherent strict (f.both g) where
  errors_ne_nil hnone := by
    rw [errors_both, Ne, List.append_eq_nil_iff]
    rintro ⟨hfnil, hgnil⟩
    cases hfv : f.value with
    | none => exact hf.errors_ne_nil hfv hfnil
    | some a =>
        cases hgv : g.value with
        | none => exact hg.errors_ne_nil hgv hgnil
        | some b =>
            have hsome : (f.both g).value = some (a, b) := value_both_eq_some_iff.mpr ⟨hfv, hgv⟩
            rw [hsome] at hnone
            cases hnone
  unexpected ab hab d hd := by
    obtain ⟨hfv, hgv⟩ := value_both_eq_some_iff.mp hab
    rcases List.mem_append.mp hd with hd | hd
    · exact hf.unexpected _ hfv d hd
    · exact hg.unexpected _ hgv d hd

/-- Visits in a row have a value exactly if they have no diagnostic. -/
theorem gather (fs : List (Finding α)) : Coherent strict (gather fs) where
  errors_ne_nil hnone hnil := by
    have hsome : (Finding.gather fs).value = some (fs.filterMap (·.value)) :=
      value_gather_eq_some_iff.mpr ⟨List.flatMap_eq_nil_iff.mp hnil, rfl⟩
    rw [hsome] at hnone
    cases hnone
  unexpected as has d hd := by
    rw [errors_gather, List.flatMap_eq_nil_iff.mpr (value_gather_eq_some_iff.mp has).1] at hd
    cases hd

/-- A coherent finding accepts some value exactly if it has no diagnostic. -/
theorem errors_eq_nil_iff (h : Coherent strict f) :
    f.errors = [] ↔ ∃ a, f = Finding.accept a := by
  constructor
  · intro hnil
    cases hvalue : f.value with
    | none => exact absurd hnil (h.errors_ne_nil hvalue)
    | some a => exact ⟨a, eq_accept_iff.mpr ⟨hvalue, hnil⟩⟩
  · rintro ⟨a, rfl⟩
    rfl

end Coherent

/-! ### Several visits -/

theorem both_eq_accept_iff {f : Finding α} {g : Finding β} {ab : α × β} :
    f.both g = accept ab ↔ f = accept ab.1 ∧ g = accept ab.2 := by
  simp only [eq_accept_iff, value_both_eq_some_iff, errors_both, List.append_eq_nil_iff]
  constructor
  · rintro ⟨⟨hfv, hgv⟩, hfe, hge⟩
    exact ⟨⟨hfv, hfe⟩, hgv, hge⟩
  · rintro ⟨⟨hfv, hfe⟩, hgv, hge⟩
    exact ⟨⟨hfv, hgv⟩, hfe, hge⟩

theorem gather_nil_eq_accept_iff {as : List α} : gather [] = accept as ↔ as = [] := by
  rw [eq_accept_iff, value_gather_eq_some_iff]
  simp [eq_comm]

theorem gather_cons_eq_accept_iff {strict : Bool} {f : Finding α} {fs : List (Finding α)}
    {as : List α} (h : Coherent strict f) :
    gather (f :: fs) = accept as
      ↔ ∃ a rest, as = a :: rest ∧ f = accept a ∧ gather fs = accept rest := by
  simp only [eq_accept_iff, value_gather_eq_some_iff, errors_gather, List.flatMap_eq_nil_iff,
    List.forall_mem_cons]
  constructor
  · rintro ⟨⟨⟨hf, hfs⟩, hvalues⟩, _⟩
    obtain ⟨a, rfl⟩ := h.errors_eq_nil_iff.mp hf
    rw [List.filterMap_cons_some (value_accept a)] at hvalues
    exact ⟨a, fs.filterMap (·.value), hvalues.symm, ⟨rfl, rfl⟩, ⟨hfs, rfl⟩, hfs⟩
  · rintro ⟨a, rest, rfl, ⟨hfv, hfe⟩, ⟨hfs, hvalues⟩, _⟩
    refine ⟨⟨⟨hfe, hfs⟩, ?_⟩, hfe, hfs⟩
    rw [List.filterMap_cons_some hfv, hvalues]

/-! ### The end of a visit -/

theorem result_eq_ok_iff_eq_accept {f : Finding α} {a : α} : f.result = .ok a ↔ f = accept a := by
  rw [result_eq_ok_iff, eq_accept_iff]

theorem ofResult_result (f : Finding α) : Diagnostic.ofResult f.result = f.errors := by
  cases h : f.result with
  | ok a => rw [((result_eq_ok_iff f a).mp h).2, Diagnostic.ofResult]
  | error errors =>
      unfold result Diagnostic.Log.conclude at h
      split at h
      · cases h
      · cases h
        rfl

/-- A finding with diagnostics is refused, whatever its value. -/
theorem result_of_errors_ne_nil {f : Finding α} (h : f.errors ≠ []) :
    f.result = .error f.errors := by
  cases hresult : f.result with
  | ok a => exact absurd ((result_eq_ok_iff f a).mp hresult).2 h
  | error errors => rw [← ofResult_result f, hresult, Diagnostic.ofResult]

theorem Coherent.exists_result_eq_ok_iff {strict : Bool} {f : Finding α} (h : Coherent strict f) :
    (∃ a, f.result = .ok a) ↔ f.errors = [] := by
  simp only [h.errors_eq_nil_iff, result_eq_ok_iff_eq_accept]

/-- A coherent finding that accepts nothing is refused with its diagnostics. -/
theorem Coherent.result_eq_error {strict : Bool} {f : Finding α} (h : Coherent strict f)
    (hnone : ∀ a, f ≠ Finding.accept a) : f.result = .error f.errors ∧ f.errors ≠ [] := by
  have hne : f.errors ≠ [] := by
    intro hnil
    obtain ⟨a, ha⟩ := h.errors_eq_nil_iff.mp hnil
    exact hnone a ha
  exact ⟨result_of_errors_ne_nil hne, hne⟩

end Finding

end StrategyDoc
