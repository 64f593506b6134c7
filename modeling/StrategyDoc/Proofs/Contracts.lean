import Mathlib.Data.List.Nodup
import StrategyDoc.Catalog.Functions
import StrategyDoc.Json.Members

/-! # Names in the catalog

A name picks at most one contract (`find?_eq_some_iff`), no contract is called like a
conditional (`name_ne_conditionalWord`), and the fields of an object are told apart by their
names wherever a contract describes one (`WellNamed`).  Variable names are described by
their characters (`isIdentifier_iff`).  What an object that stands for an expression declares
depends on its marker alone (`Json.nodeSpecs`). -/

namespace StrategyDoc

/-! ### Variable names -/

/-- A letter of the Latin alphabet, without accents. -/
def IsLetter (c : Char) : Prop := ('A' ≤ c ∧ c ≤ 'Z') ∨ ('a' ≤ c ∧ c ≤ 'z')

/-- A decimal digit. -/
def IsDigit (c : Char) : Prop := '0' ≤ c ∧ c ≤ '9'

/-- A letter or underscore, followed by letters, digits and underscores. -/
def IsVariableName (s : String) : Prop :=
  ∃ first rest, s.toList = first :: rest ∧ (IsLetter first ∨ first = '_') ∧
    ∀ c ∈ rest, IsLetter c ∨ IsDigit c ∨ c = '_'

theorem isAlpha_iff (c : Char) : c.isAlpha = true ↔ IsLetter c := by
  have hupper : c.isUpper = decide ('A' ≤ c ∧ c ≤ 'Z') := rfl
  have hlower : c.isLower = (decide ('a' ≤ c) && decide (c ≤ 'z')) := rfl
  have halpha : c.isAlpha = (c.isUpper || c.isLower) := rfl
  rw [halpha, hupper, hlower]
  simp [IsLetter]

theorem isAlphanum_iff (c : Char) : c.isAlphanum = true ↔ IsLetter c ∨ IsDigit c := by
  have hdigit : c.isDigit = (decide ('0' ≤ c) && decide (c ≤ '9')) := rfl
  have halphanum : c.isAlphanum = (c.isAlpha || c.isDigit) := rfl
  rw [halphanum, Bool.or_eq_true, isAlpha_iff, hdigit]
  simp [IsDigit]

theorem isNameStart_iff (c : Char) : isNameStart c = true ↔ IsLetter c ∨ c = '_' := by
  simp [isNameStart, isAlpha_iff]

theorem isNamePart_iff (c : Char) : isNamePart c = true ↔ IsLetter c ∨ IsDigit c ∨ c = '_' := by
  simp [isNamePart, isAlphanum_iff, or_assoc]

theorem isIdentifier_iff (s : String) : isIdentifier s = true ↔ IsVariableName s := by
  unfold isIdentifier IsVariableName
  cases s.toList with
  | nil => simp
  | cons first rest =>
      simp only [Bool.and_eq_true, isNameStart_iff, List.all_eq_true, isNamePart_iff]
      constructor
      · intro ⟨hfirst, hrest⟩
        exact ⟨first, rest, rfl, hfirst, hrest⟩
      · intro ⟨_, _, heq, hfirst, hrest⟩
        cases heq
        exact ⟨hfirst, hrest⟩

theorem IsVariableName.isNamePart_of_mem {s : String} (h : IsVariableName s) :
    ∀ c ∈ s.toList, isNamePart c = true := by
  obtain ⟨first, rest, hcons, hfirst, hrest⟩ := h
  rw [hcons, List.forall_mem_cons]
  refine ⟨(isNamePart_iff first).mpr ?_, fun c hc => (isNamePart_iff c).mpr (hrest c hc)⟩
  rcases hfirst with hfirst | hfirst
  · exact .inl hfirst
  · exact .inr (.inr hfirst)

/-! ### Fields with names of their own -/

mutual

/-- The fields of the objects that a kind describes have different names. -/
def FieldKind.WellNamed : FieldKind → Bool
  | .shape specs => decide (specs.map (·.1)).Nodup && FieldKind.AllWellNamed specs
  | .optional inner => inner.WellNamed
  | _ => true

def FieldKind.AllWellNamed : List (String × FieldKind) → Bool
  | [] => true
  | (_, kind) :: rest => kind.WellNamed && FieldKind.AllWellNamed rest

end

/-- The fields of an object, and of the objects inside, have different names. -/
def WellNamed (specs : List FieldSpec) : Prop :=
  (specs.map (·.1)).Nodup ∧ FieldKind.AllWellNamed specs = true

namespace WellNamed

variable {name : String} {kind : FieldKind} {specs rest : List FieldSpec}

theorem nil : WellNamed [] := ⟨List.nodup_nil, rfl⟩

theorem shape (h : (FieldKind.shape specs).WellNamed = true) : WellNamed specs := by
  unfold FieldKind.WellNamed at h
  rw [Bool.and_eq_true, decide_eq_true_iff] at h
  exact h

theorem optional {inner : FieldKind} (h : (FieldKind.optional inner).WellNamed = true) :
    inner.WellNamed = true := by
  unfold FieldKind.WellNamed at h
  exact h

theorem tail (h : WellNamed ((name, kind) :: rest)) : WellNamed rest := by
  obtain ⟨hnodup, hkinds⟩ := h
  unfold FieldKind.AllWellNamed at hkinds
  rw [Bool.and_eq_true] at hkinds
  exact ⟨(List.nodup_cons.mp hnodup).2, hkinds.2⟩

theorem head (h : WellNamed ((name, kind) :: rest)) : kind.WellNamed = true := by
  have hkinds := h.2
  unfold FieldKind.AllWellNamed at hkinds
  rw [Bool.and_eq_true] at hkinds
  exact hkinds.1

theorem not_mem_tail (h : WellNamed ((name, kind) :: rest)) : name ∉ rest.map (·.1) :=
  (List.nodup_cons.mp h.1).1

theorem ne_of_mem_tail {spec : FieldSpec} (h : WellNamed ((name, kind) :: rest))
    (hspec : spec ∈ rest) : name ≠ spec.1 := by
  rintro rfl
  exact h.not_mem_tail (List.mem_map_of_mem hspec)

theorem kind_of_mem (h : WellNamed specs) (hmem : (name, kind) ∈ specs) :
    kind.WellNamed = true := by
  induction specs with
  | nil => cases hmem
  | cons spec rest ih =>
      rcases List.mem_cons.mp hmem with rfl | hmem
      · exact h.head
      · exact ih h.tail hmem

end WellNamed

/-! ### Contracts -/

namespace Catalog

variable {contract : Contract}

/-- The table of contracts is well formed: one evaluation settles it for all of them. -/
theorem all_wellFormed : (all.map (·.name)).Nodup ∧ ∀ c ∈ all,
    c.name ≠ conditionalWord ∧ "function" ∉ c.fieldNames
      ∧ (FieldKind.shape c.fields).WellNamed = true := by
  decide +kernel

theorem nodup_names : (all.map (·.name)).Nodup := all_wellFormed.1

/-- No contract is called like a conditional. -/
theorem name_ne_conditionalWord (h : contract ∈ all) : contract.name ≠ conditionalWord :=
  (all_wellFormed.2 contract h).1

/-- No contract has a field for the marker. -/
theorem function_not_mem_fieldNames (h : contract ∈ all) : "function" ∉ contract.fieldNames :=
  (all_wellFormed.2 contract h).2.1

theorem wellNamed_fields (h : contract ∈ all) : WellNamed contract.fields :=
  WellNamed.shape (all_wellFormed.2 contract h).2.2

/-- Contracts of one name are the same. -/
theorem eq_of_name_eq {other : Contract} (hcontract : contract ∈ all) (hother : other ∈ all)
    (h : contract.name = other.name) : contract = other :=
  List.inj_on_of_nodup_map nodup_names hcontract hother h

theorem find?_eq_some_iff {name : String} :
    find? name = some contract ↔ contract ∈ all ∧ contract.name = name := by
  unfold find?
  constructor
  · intro h
    exact ⟨List.mem_of_find?_eq_some h, by simpa using List.find?_some h⟩
  · rintro ⟨hmem, rfl⟩
    cases hfind : all.find? (·.name == contract.name) with
    | none => exact absurd (List.find?_eq_none.mp hfind contract hmem) (by simp)
    | some other =>
        have hname : other.name = contract.name := by simpa using List.find?_some hfind
        rw [eq_of_name_eq (List.mem_of_find?_eq_some hfind) hmem hname]

theorem find?_name (h : contract ∈ all) : find? contract.name = some contract :=
  find?_eq_some_iff.mpr ⟨h, rfl⟩

end Catalog

/-! ### What is declared where -/

/-- The kind of a named field. -/
def FieldKind.find? (name : String) : List FieldSpec → Option FieldKind
  | [] => none
  | (key, kind) :: rest => if key = name then some kind else find? name rest

theorem FieldKind.find?_eq_none_iff {name : String} {specs : List FieldSpec} :
    find? name specs = none ↔ name ∉ specs.map (·.1) := by
  induction specs with
  | nil => simp [find?]
  | cons spec specs ih =>
      obtain ⟨key, kind⟩ := spec
      rw [find?]
      by_cases hkey : key = name
      · simp [hkey]
      · rw [if_neg hkey, ih]
        simp [Ne.symm hkey]

theorem FieldKind.mem_of_find? {name : String} {kind : FieldKind} {specs : List FieldSpec}
    (h : find? name specs = some kind) : (name, kind) ∈ specs := by
  induction specs with
  | nil => cases h
  | cons spec specs ih =>
      obtain ⟨key, other⟩ := spec
      rw [find?] at h
      by_cases hkey : key = name
      · rw [if_pos hkey] at h
        cases h
        rw [hkey]
        exact List.mem_cons_self
      · rw [if_neg hkey] at h
        exact List.mem_cons_of_mem _ (ih h)

theorem FieldKind.find?_eq_some_of_mem {name : String} {kind : FieldKind} {specs : List FieldSpec}
    (hnodup : (specs.map (·.1)).Nodup) (h : (name, kind) ∈ specs) :
    find? name specs = some kind := by
  induction specs with
  | nil => cases h
  | cons spec specs ih =>
      obtain ⟨key, other⟩ := spec
      obtain ⟨hkey, hnodup⟩ := List.nodup_cons.mp hnodup
      rw [find?]
      rcases List.mem_cons.mp h with heq | hmem
      · cases heq
        exact if_pos rfl
      · have hname : name ∈ specs.map (·.1) := List.mem_map_of_mem hmem
        have hne : key ≠ name := fun heq => hkey (heq ▸ hname)
        rw [if_neg hne]
        exact ih hnodup hmem

theorem FieldKind.bare_bare (kind : FieldKind) : kind.bare.bare = kind.bare := by
  induction kind using FieldKind.bare.induct with
  | case1 inner ih => exact ih
  | case2 kind h => rw [FieldKind.bare.eq_2 kind h, FieldKind.bare.eq_2 kind h]

namespace Json

/-- The fields of a conditional. -/
def conditionalSpecs : List FieldSpec :=
  [("function", .text), ("if", .expression), ("then", .sequence none),
    ("else", .optional (.sequence none))]

/-- The fields of a call. -/
def callSpecs (contract : Contract) : List FieldSpec := ("function", .text) :: contract.fields

/-- The fields of a document. -/
def documentSpecs : List FieldSpec :=
  [("name", .text), ("author", .text), ("strategy", .expression)]

/-- The fields of an object that stands for an expression, as its marker says. -/
def nodeSpecs (members : List (String × Json)) : List FieldSpec :=
  match member? "function" members with
  | some (.string name) =>
    if name = conditionalWord then conditionalSpecs
    else ((Catalog.find? name).map callSpecs).getD []
  | _ => []

section nodes

variable {members : List (String × Json)}

theorem nodeSpecs_conditional (h : member? "function" members = some (.string conditionalWord)) :
    nodeSpecs members = conditionalSpecs := by
  unfold nodeSpecs
  rw [h]
  exact if_pos rfl

theorem nodeSpecs_call {contract : Contract} (hcontract : contract ∈ Catalog.all)
    (h : member? "function" members = some (.string contract.name)) :
    nodeSpecs members = callSpecs contract := by
  unfold nodeSpecs
  rw [h]
  dsimp only
  rw [if_neg (Catalog.name_ne_conditionalWord hcontract), Catalog.find?_name hcontract]
  rfl

/-- The fields that an object declares have different names. -/
theorem wellNamed_nodeSpecs (members : List (String × Json)) : WellNamed (nodeSpecs members) := by
  unfold nodeSpecs
  split
  · split
    · exact WellNamed.shape (by decide)
    · rename_i name _ _
      cases hfind : Catalog.find? name with
      | none => exact .nil
      | some contract =>
          have hcontract := (Catalog.find?_eq_some_iff.mp hfind).1
          obtain ⟨hnodup, hkinds⟩ := Catalog.wellNamed_fields hcontract
          have hmarker := Catalog.function_not_mem_fieldNames hcontract
          exact ⟨List.nodup_cons.mpr ⟨hmarker, hnodup⟩, hkinds⟩
  · exact .nil

end nodes

end Json

end StrategyDoc
