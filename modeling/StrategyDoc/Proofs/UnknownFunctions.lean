import Mathlib.Logic.Function.Basic
import StrategyDoc.Catalog.Listing
import StrategyDoc.Proofs.Justification

/-! # Unknown functions

A name is unknown if it is neither that of a contract nor the word for conditionals
(`Catalog.IsUnknown`).  Looking a name up by going through the catalog is the same as looking
it up in a table of all contracts (`Catalog.table_all`), so no contract is lost on the way.
The catalog describes all names but the unknown ones, and an object that names an unknown
function is refused for this alone, whatever else it has (`Catalog.unknown_iff_refused`). -/

namespace StrategyDoc

namespace Catalog

/-- The name is neither that of a function nor the word for conditionals. -/
def IsUnknown (name : String) : Prop :=
  name ≠ conditionalWord ∧ ∀ contract ∈ all, contract.name ≠ name

/-! ### A table of contracts -/

/-- Put a contract under its name, in the place of another one of that name. -/
def enter (table : String → Option Contract) (contract : Contract) : String → Option Contract :=
  Function.update table contract.name (some contract)

/-- The contracts under their names, put in one after the other. -/
def table (contracts : List Contract) : String → Option Contract :=
  contracts.foldl enter fun _ => none

theorem foldl_enter {contracts : List Contract} (hnodup : (contracts.map (·.name)).Nodup)
    (start : String → Option Contract) (name : String) :
    contracts.foldl enter start name
      = (contracts.find? (·.name == name)).or (start name) := by
  induction contracts generalizing start with
  | nil => rfl
  | cons contract rest ih =>
      obtain ⟨hfresh, hrest⟩ := List.nodup_cons.mp hnodup
      rw [List.foldl_cons, ih hrest, List.find?_cons, enter]
      by_cases hname : contract.name = name
      · have hnone : rest.find? (·.name == name) = none := by
          rw [List.find?_eq_none]
          intro other hother hsame
          have heq : other.name = contract.name := (beq_iff_eq.mp hsame).trans hname.symm
          exact hfresh (List.mem_map.mpr ⟨other, hother, heq⟩)
        rw [hnone, hname, Function.update_self, beq_self_eq_true]
        rfl
      · rw [Function.update_of_ne (Ne.symm hname), beq_eq_false_iff_ne.mpr hname]

theorem table_all (name : String) : table all name = find? name := by
  rw [table, foldl_enter nodup_names, Option.or_none]
  rfl

/-! ### What is described -/

theorem find?_eq_none_iff {name : String} :
    find? name = none ↔ ∀ contract ∈ all, contract.name ≠ name := by
  unfold find?
  rw [List.find?_eq_none]
  simp only [beq_iff_eq, ne_eq]

theorem describe_eq_error_iff {name : String} {failure : Failure} :
    describe name = .error failure ↔ IsUnknown name ∧ failure = .unknownFunction name := by
  unfold describe IsUnknown
  rw [← find?_eq_none_iff]
  by_cases hword : name = conditionalWord
  · simp [hword]
  · rw [if_neg hword]
    cases hfind : find? name with
    | none => simp [hword, eq_comm]
    | some contract => simp

end Catalog

/-! ### What is refused -/

section refused

variable {policy : Policy} {name : String} {members : List (String × Json)}

theorem Expression.ofJson?_of_isUnknown (hlimit : 1 ≤ policy.maxDepth)
    (hfunction : Json.member? "function" members = some (.string name))
    (hunknown : Catalog.IsUnknown name) :
    Expression.ofJson? policy (.object members)
      = .error [(Defect.unknownFunction name).diagnostic] := by
  have hfind : Catalog.find? name = none := Catalog.find?_eq_none_iff.mpr hunknown.2
  have hvisit : Validation.expression policy policy.maxDepth (.object members)
      = .reject (.unknownFunction name) :=
    calc Validation.expression policy policy.maxDepth (.object members)
        = Validation.expression policy (policy.maxDepth - 1 + 1) (.object members) := by
          rw [Nat.sub_add_cancel hlimit]
      _ = Validation.object policy (Validation.expression policy (policy.maxDepth - 1)) members :=
          rfl
      _ = .reject (.unknownFunction name) :=
          Validation.object_unknown hfunction hunknown.1 hfind
  rw [Expression.ofJson?, hvisit]
  rfl

theorem Catalog.isUnknown_of_mem_ofResult (hlimit : 1 ≤ policy.maxDepth)
    (hfunction : Json.member? "function" members = some (.string name)) {d : Diagnostic}
    (hd : d ∈ Diagnostic.ofResult (Expression.ofJson? policy (.object members)))
    (hpath : d.path = []) (hkind : d.kind = .unknownFunction) : Catalog.IsUnknown name := by
  have hreports := Validation.reports_ofJson?_expression policy (.object members)
  obtain ⟨path, place, e, hleads, hreported, rfl⟩ := hreports.exists_leads d hd
  have hjustified :
      (e.behind path).Justified policy ⟨1, .field .expression, .object members⟩ :=
    Diagnostic.justified_of_reported hlimit nofun hleads hreported
  unfold Diagnostic.Justified at hjustified
  rw [hkind, hpath] at hjustified
  obtain ⟨found, other, hat, hother, hunknown⟩ := hjustified
  -- At the root there is the object itself, so the unknown name is its own.
  cases hat
  cases hfunction.symm.trans hother
  exact hunknown

end refused

/-- **The catalog and the visit agree on unknown names.**  The catalog fails to describe a name
exactly if an object with this marker is refused as an unknown function, and exactly if the name
is unknown.  Nothing else is reported of such an object then. -/
theorem Catalog.unknown_iff_refused (policy : Policy) (hlimit : 1 ≤ policy.maxDepth)
    (name : String) {members : List (String × Json)}
    (hfunction : Json.member? "function" members = some (.string name)) :
    ((∃ failure, describe name = .error failure) ↔ IsUnknown name)
    ∧ ((∃ d ∈ Diagnostic.ofResult (Expression.ofJson? policy (.object members)),
        d.path = [] ∧ d.kind = .unknownFunction) ↔ IsUnknown name)
    ∧ (IsUnknown name ↔ name ≠ conditionalWord ∧ table all name = none)
    ∧ (IsUnknown name → describe name = .error (.unknownFunction name)
        ∧ Expression.ofJson? policy (.object members)
          = .error [⟨[], .unknownFunction, s!"unknown function '{name}'"⟩]) := by
  have hrefused := Expression.ofJson?_of_isUnknown hlimit hfunction
  refine ⟨⟨?_, ?_⟩, ⟨?_, ?_⟩, ?_, ?_⟩
  · rintro ⟨failure, hfailure⟩
    exact (describe_eq_error_iff.mp hfailure).1
  · intro hunknown
    exact ⟨_, describe_eq_error_iff.mpr ⟨hunknown, rfl⟩⟩
  · rintro ⟨d, hd, hpath, hkind⟩
    exact isUnknown_of_mem_ofResult hlimit hfunction hd hpath hkind
  · intro hunknown
    rw [hrefused hunknown]
    exact ⟨_, List.mem_singleton_self _, rfl, rfl⟩
  · rw [table_all, find?_eq_none_iff, IsUnknown]
  · intro hunknown
    exact ⟨describe_eq_error_iff.mpr ⟨hunknown, rfl⟩, hrefused hunknown⟩

/-- The function `SMMAAAA` is unknown, and its arguments do not matter even to a strict policy;
the function `SMMA` is known, so what is wrong with it is something else. -/
theorem Catalog.unknown_misspelt :
    (1 ≤ 1
      ∧ Json.member? "function" [("args", .null), ("function", .string "SMMAAAA")]
        = some (.string "SMMAAAA")
      ∧ Json.member? "function" [("function", .string "SMMA")] = some (.string "SMMA"))
    ∧ Expression.ofJson? ⟨true, 1, false⟩
        (.object [("args", .null), ("function", .string "SMMAAAA")])
      = .error [⟨[], .unknownFunction, "unknown function 'SMMAAAA'"⟩]
    ∧ ¬ (∃ failure, describe "SMMA" = .error failure)
    ∧ (Diagnostic.ofResult (Expression.ofJson? ⟨true, 1, false⟩
        (.object [("function", .string "SMMA")]))).map (·.kind)
      = [.missingRequiredField, .missingRequiredField, .missingRequiredField] := by
  have hlimit : 1 ≤ 1 := Nat.le_refl 1
  have hmisspelt : Json.member? "function" [("args", .null), ("function", .string "SMMAAAA")]
      = some (.string "SMMAAAA") := rfl
  have hknown : Json.member? "function" [("function", .string "SMMA")]
      = some (.string "SMMA") := rfl
  have hunknown : IsUnknown "SMMAAAA" := by
    unfold IsUnknown
    decide +kernel
  obtain ⟨_, _, _, hrefused⟩ := unknown_iff_refused ⟨true, 1, false⟩ hlimit _ hmisspelt
  obtain ⟨hdescribed, _, _, _⟩ := unknown_iff_refused ⟨true, 1, false⟩ hlimit _ hknown
  refine ⟨⟨hlimit, hmisspelt, hknown⟩, (hrefused hunknown).2, ?_, rfl⟩
  rw [hdescribed]
  unfold IsUnknown
  decide +kernel

end StrategyDoc
