import StrategyDoc.Proofs.Contracts
import StrategyDoc.Proofs.Findings
import StrategyDoc.Validation.Visit

/-! # What the visits find

One section for each question about a visit.  Its diagnostics are those of its parts in
order (`errors_conditional`, `errors_call` and so on), whatever values the parts have.  It is
coherent if the visits to its child expressions are (`coherent_node`), hence so is every
visit to a document (`coherent_strategy`).  It accepts exactly if its parts accept and no
member is undeclared under a strict policy (`conditional_eq_accept_iff` and so on). -/

namespace StrategyDoc

/-- Under a strict policy there is no member outside the declared ones. -/
def OnlyDeclared (strict : Bool) (declared : List String) (members : List (String × Json)) : Prop :=
  strict = true → ∀ m ∈ members, m.1 ∈ declared

namespace Validation

open Finding

variable {α : Type} {policy : Policy} {visit : Visitor} {name : String}
  {members : List (String × Json)}

/-! ### Cases -/

theorem branch_array_of_forbidden {items : List Json} (hnil : items = [])
    (hforbidden : policy.allowEmptyBranches = false) :
    branch policy visit (.array items) = reject .emptyBranch := by
  simp [branch, hnil, hforbidden]

theorem branch_array_of_allowed {items : List Json}
    (h : policy.allowEmptyBranches = false → items ≠ []) :
    branch policy visit (.array items) = expressions visit items := by
  unfold branch
  dsimp only
  rw [if_neg]
  simp only [Bool.and_eq_true, List.isEmpty_iff, Bool.not_eq_true', not_and]
  exact fun hnil hforbidden => h hforbidden hnil

theorem fieldValue_expression (value : Json) :
    fieldValue policy visit .expression value = (visit value).map .expression :=
  rfl

theorem fieldValue_optional (inner : FieldKind) (value : Json) :
    fieldValue policy visit (.optional inner) value = fieldValue policy visit inner value :=
  rfl

theorem fieldValue_sequence {length : Option Nat} {items : List Json}
    (h : ∀ expected, length = some expected → items.length = expected) :
    fieldValue policy visit (.sequence length) (.array items)
      = (expressions visit items).map .sequence := by
  cases length with
  | none => rfl
  | some expected => exact if_pos (h expected rfl)

theorem fieldValue_sequence_of_length_ne {expected : Nat} {items : List Json}
    (h : items.length ≠ expected) :
    fieldValue policy visit (.sequence (some expected)) (.array items)
      = reject (.wrongLength expected items.length) :=
  if_neg h

theorem fieldValue_oneOf_of_mem {allowed : List String} {s : String} (h : s ∈ allowed) :
    fieldValue policy visit (.oneOf allowed) (.string s) = accept (.choice s) :=
  if_pos (List.contains_iff_mem.mpr h)

theorem fieldValue_oneOf_of_not_mem {allowed : List String} {s : String} (h : s ∉ allowed) :
    fieldValue policy visit (.oneOf allowed) (.string s) = reject (.notAllowed s allowed) :=
  if_neg fun hs => h (List.contains_iff_mem.mp hs)

theorem fieldValue_identifier_of_pos {s : String} (h : isIdentifier s = true) :
    fieldValue policy visit .identifier (.string s) = accept (.text s) :=
  if_pos h

theorem fieldValue_identifier_of_neg {s : String} (h : ¬ isIdentifier s = true) :
    fieldValue policy visit .identifier (.string s) = reject (.notIdentifier s) :=
  if_neg h

theorem fieldValue_shape (specs : List FieldSpec) (members : List (String × Json)) :
    fieldValue policy visit (.shape specs) (.object members)
      = ((gather (fieldValues policy visit specs members)).map .shape).followedBy
          (undeclared policy (specs.map (·.1)) members) :=
  rfl

/-- The marker of an object names a conditional, or a contract, or neither. -/
theorem marker_cases (members : List (String × Json)) :
    Json.member? "function" members = some (.string conditionalWord)
      ∨ (∃ contract ∈ Catalog.all,
          Json.member? "function" members = some (.string contract.name))
      ∨ Json.member? "function" members ≠ some (.string conditionalWord)
        ∧ ∀ contract ∈ Catalog.all,
            Json.member? "function" members ≠ some (.string contract.name) := by
  by_cases hconditional : Json.member? "function" members = some (.string conditionalWord)
  · exact .inl hconditional
  · by_cases hcall : ∃ contract ∈ Catalog.all,
        Json.member? "function" members = some (.string contract.name)
    · exact .inr (.inl hcall)
    · refine .inr (.inr ⟨hconditional, ?_⟩)
      intro contract hcontract h
      exact hcall ⟨contract, hcontract, h⟩

/-- A value is a conditional by its marker, or no object has this marker. -/
theorem root_cases (value : Json) :
    (∃ members, value = .object members
        ∧ Json.member? "function" members = some (.string conditionalWord))
      ∨ ∀ members, value = .object members →
        Json.member? "function" members ≠ some (.string conditionalWord) := by
  by_cases h : ∃ members, value = .object members
      ∧ Json.member? "function" members = some (.string conditionalWord)
  · exact .inl h
  · exact .inr fun members hvalue hfunction => h ⟨members, hvalue, hfunction⟩

/-- A sequence is of the fixed length, as far as there is one, or it is of another length. -/
theorem length_cases (length : Option Nat) (items : List Json) :
    (∀ expected, length = some expected → items.length = expected)
      ∨ ∃ expected, length = some expected ∧ items.length ≠ expected := by
  cases length with
  | none => exact .inl nofun
  | some expected =>
      by_cases h : items.length = expected
      · exact .inl fun _ hexpected => Option.some.inj hexpected ▸ h
      · exact .inr ⟨expected, rfl, h⟩

/-- A branch is as the policy allows it, or it is empty where it may not be. -/
theorem branch_cases (policy : Policy) (items : List Json) :
    (policy.allowEmptyBranches = false → items ≠ [])
      ∨ items = [] ∧ policy.allowEmptyBranches = false := by
  by_cases h : policy.allowEmptyBranches = false → items ≠ []
  · exact .inl h
  · obtain ⟨hforbidden, hnil⟩ := Classical.not_imp.mp h
    exact .inr ⟨Classical.not_not.mp hnil, hforbidden⟩

/-- An object that is neither a conditional nor a call declares nothing. -/
theorem nodeSpecs_other (hconditional :
      Json.member? "function" members ≠ some (.string conditionalWord))
    (hcall : ∀ contract ∈ Catalog.all,
      Json.member? "function" members ≠ some (.string contract.name)) :
    Json.nodeSpecs members = [] := by
  unfold Json.nodeSpecs
  split
  · rename_i name h
    have hname : name ≠ conditionalWord := by
      rintro rfl
      exact hconditional h
    rw [if_neg hname]
    cases hfind : Catalog.find? name with
    | none => rfl
    | some contract =>
        obtain ⟨hcontract, rfl⟩ := Catalog.find?_eq_some_iff.mp hfind
        exact absurd h (hcall contract hcontract)
  · rfl

theorem object_conditional
    (h : Json.member? "function" members = some (.string conditionalWord)) :
    object policy visit members = (conditional policy visit members).map (·.toExpression) := by
  unfold object
  rw [h]
  exact if_pos rfl

theorem object_call {contract : Contract} (hcontract : contract ∈ Catalog.all)
    (h : Json.member? "function" members = some (.string contract.name)) :
    object policy visit members = call policy visit contract members := by
  unfold object
  rw [h]
  dsimp only
  rw [if_neg (Catalog.name_ne_conditionalWord hcontract), Catalog.find?_name hcontract]

theorem object_unmarked (h : Json.member? "function" members = none) :
    object policy visit members = missing "function" := by
  unfold object
  rw [h]

theorem object_unknown {name : String}
    (h : Json.member? "function" members = some (.string name)) (hname : name ≠ conditionalWord)
    (hfind : Catalog.find? name = none) :
    object policy visit members = reject (.unknownFunction name) := by
  unfold object
  rw [h]
  dsimp only
  rw [if_neg hname, hfind]

theorem object_wrongMarker {marker : Json} (h : Json.member? "function" members = some marker)
    (hmarker : ∀ name, marker ≠ .string name) :
    object policy visit members
      = (reject (.wrongSort .functionName marker)).under (.field "function") := by
  unfold object
  rw [h]
  cases marker with
  | string name => exact absurd rfl (hmarker name)
  | _ => rfl

/-- Where the marker names neither a conditional nor a contract, it is absent, or no string, or
the name of nothing. -/
theorem other_marker_cases (hconditional :
      Json.member? "function" members ≠ some (.string conditionalWord))
    (hcall : ∀ contract ∈ Catalog.all,
      Json.member? "function" members ≠ some (.string contract.name)) :
    Json.member? "function" members = none
      ∨ (∃ marker, Json.member? "function" members = some marker
          ∧ ∀ name, marker ≠ .string name)
      ∨ ∃ name, Json.member? "function" members = some (.string name) ∧ name ≠ conditionalWord
          ∧ Catalog.find? name = none := by
  cases h : Json.member? "function" members with
  | none => exact .inl rfl
  | some marker =>
      by_cases hstring : ∃ name, marker = .string name
      · obtain ⟨name, rfl⟩ := hstring
        refine .inr (.inr ⟨name, rfl, ?_, ?_⟩)
        · rintro rfl
          exact hconditional h
        · cases hfind : Catalog.find? name with
          | none => rfl
          | some contract =>
              obtain ⟨hcontract, rfl⟩ := Catalog.find?_eq_some_iff.mp hfind
              exact absurd h (hcall contract hcontract)
      · exact .inr (.inl ⟨marker, rfl, fun name hname => hstring ⟨name, hname⟩⟩)

/-- An object that is neither a conditional nor a call has one defect, whatever the policy. -/
theorem object_other (hconditional :
      Json.member? "function" members ≠ some (.string conditionalWord))
    (hcall : ∀ contract ∈ Catalog.all,
      Json.member? "function" members ≠ some (.string contract.name)) :
    ∃ d, (∀ policy visit, object policy visit members = ⟨none, [d]⟩)
      ∧ d.kind ≠ .recursionLimitExceeded ∧ d.kind ≠ .unexpectedField := by
  rcases other_marker_cases hconditional hcall with h | ⟨marker, h, hmarker⟩
    | ⟨name, h, hname, hfind⟩
  · exact ⟨_, fun _ _ => object_unmarked h, nofun, nofun⟩
  · exact ⟨_, fun _ _ => object_wrongMarker h hmarker, nofun, nofun⟩
  · exact ⟨_, fun _ _ => object_unknown h hname hfind, nofun, nofun⟩

theorem root_conditional
    (h : Json.member? "function" members = some (.string conditionalWord)) :
    root policy (.object members)
      = conditional policy (expression policy (policy.maxDepth - 1)) members := by
  unfold root
  dsimp only
  rw [h]
  exact if_pos rfl

theorem root_other {value : Json}
    (h : ∀ members, value = .object members →
      Json.member? "function" members ≠ some (.string conditionalWord)) :
    root policy value = reject (.notConditional value) := by
  cases value with
  | object members =>
      unfold root
      dsimp only
      split
      · rename_i name hname
        rw [if_neg]
        rintro rfl
        exact h members rfl hname
      · rfl
  | _ => rfl

/-! ### Diagnostics -/

theorem undeclared_eq_nil_iff {declared : List String} :
    undeclared policy declared members = [] ↔ OnlyDeclared policy.strict declared members := by
  unfold undeclared OnlyDeclared
  cases policy.strict with
  | false => simp
  | true => simp

theorem errors_member (absent : Finding α) (visit : Json → Finding α) :
    (member name members absent visit).errors = match Json.member? name members with
      | none => absent.errors
      | some value => (visit value).errors.map (·.under (.field name)) := by
  unfold member
  cases Json.member? name members with
  | none => rfl
  | some value => rfl

theorem errors_member_missing_eq_nil_iff {visit : Json → Finding α} :
    (member name members (missing name) visit).errors = []
      ↔ ∃ value, Json.member? name members = some value ∧ (visit value).errors = [] := by
  rw [errors_member]
  cases Json.member? name members with
  | none => simp [missing]
  | some value => simp

theorem errors_member_accept_eq_nil_iff {a : α} {visit : Json → Finding α} :
    (member name members (accept a) visit).errors = []
      ↔ ∀ value, Json.member? name members = some value → (visit value).errors = [] := by
  rw [errors_member]
  cases Json.member? name members with
  | none => simp
  | some value => simp

theorem errors_expressions_eq_nil_iff {items : List Json} :
    (expressions visit items).errors = [] ↔ ∀ item ∈ items, (visit item).errors = [] := by
  unfold expressions
  rw [errors_gather, List.flatMap_eq_nil_iff]
  simp only [List.mem_mapIdx]
  constructor
  · intro h item hitem
    obtain ⟨i, hi, rfl⟩ := List.mem_iff_getElem.mp hitem
    have hunder := h _ ⟨i, hi, rfl⟩
    rwa [errors_under, List.map_eq_nil_iff] at hunder
  · rintro h _ ⟨i, hi, rfl⟩
    rw [errors_under, h _ (List.getElem_mem hi), List.map_nil]

theorem errors_conditional :
    (conditional policy visit members).errors =
      (member "if" members (missing "if") visit).errors
        ++ ((member "then" members (missing "then") (branch policy visit)).errors
          ++ (member "else" members (accept none) fun value =>
              (branch policy visit value).map some).errors)
        ++ undeclared policy conditionalFields members := rfl

theorem errors_call {contract : Contract} :
    (call policy visit contract members).errors =
      (fieldValues policy visit contract.fields members).flatMap (·.errors)
        ++ undeclared policy ("function" :: contract.fieldNames) members := rfl

theorem errors_strategy :
    (strategy policy (.object members)).errors =
      (member "name" members (missing "name") string).errors
        ++ ((member "author" members (missing "author") string).errors
          ++ (member "strategy" members (missing "strategy") (root policy)).errors)
        ++ undeclared policy strategyFields members := rfl

/-! ### Coherence -/

theorem coherent_missing : Coherent policy.strict (missing name : Finding α) :=
  (Coherent.reject _).under _

theorem coherent_member {absent : Finding α} {visit : Json → Finding α}
    (habsent : Coherent policy.strict absent) (hvisit : ∀ v, Coherent policy.strict (visit v)) :
    Coherent policy.strict (member name members absent visit) := by
  unfold member
  cases Json.member? name members with
  | none => exact habsent
  | some value => exact (hvisit value).under _

theorem unexpected_of_mem_undeclared {declared : List String} :
    ∀ d ∈ undeclared policy declared members,
      policy.strict = true ∧ d.kind = .unexpectedField := by
  intro d hd
  unfold undeclared at hd
  by_cases hstrict : policy.strict = true
  · rw [if_pos hstrict] at hd
    obtain ⟨m, _, rfl⟩ := List.mem_map.mp hd
    exact ⟨hstrict, rfl⟩
  · rw [if_neg hstrict] at hd
    cases hd

theorem coherent_expressions (items : List Json) :
    Coherent policy.strict (expressions visit items) := Coherent.gather _

theorem coherent_branch (value : Json) : Coherent policy.strict (branch policy visit value) := by
  unfold branch
  split
  · split
    · exact Coherent.reject _
    · exact coherent_expressions _
  · exact Coherent.reject _

theorem coherent_string (value : Json) : Coherent policy.strict (string value) := by
  unfold string
  split
  · exact Coherent.accept _
  · exact Coherent.reject _

variable (hvisit : ∀ v, Coherent policy.strict (visit v))

include hvisit

theorem coherent_conditional (members : List (String × Json)) :
    Coherent policy.strict (conditional policy visit members) := by
  unfold conditional
  refine Coherent.map _ (Coherent.followedBy ?_ unexpected_of_mem_undeclared)
  refine (coherent_member coherent_missing hvisit).both ?_
  refine (coherent_member coherent_missing coherent_branch).both ?_
  exact coherent_member (Coherent.accept _) fun v => (coherent_branch v).map _

theorem coherent_fieldValue : ∀ (kind : FieldKind) (value : Json),
    Coherent policy.strict (fieldValue policy visit kind value)
  | .expression, value => by
      rw [fieldValue_expression]
      exact (hvisit value).map _
  | .sequence length, value => by
      cases value with
      | array items =>
          unfold fieldValue
          split
          · exact (coherent_expressions items).map _
          · split
            · exact (coherent_expressions items).map _
            · exact Coherent.reject _
      | _ => exact Coherent.reject _
  | .oneOf allowed, value => by
      cases value with
      | string s =>
          by_cases hs : s ∈ allowed
          · rw [fieldValue_oneOf_of_mem hs]
            exact Coherent.accept _
          · rw [fieldValue_oneOf_of_not_mem hs]
            exact Coherent.reject _
      | _ => exact Coherent.reject _
  | .text, value => by
      cases value with
      | string s => exact Coherent.accept _
      | _ => exact Coherent.reject _
  | .identifier, value => by
      cases value with
      | string s =>
          by_cases hs : isIdentifier s = true
          · rw [fieldValue_identifier_of_pos hs]
            exact Coherent.accept _
          · rw [fieldValue_identifier_of_neg hs]
            exact Coherent.reject _
      | _ => exact Coherent.reject _
  | .shape specs, value => by
      cases value with
      | object members =>
          rw [fieldValue_shape]
          exact ((Coherent.gather _).map _).followedBy unexpected_of_mem_undeclared
      | _ => exact Coherent.reject _
  | .optional inner, value => by
      rw [fieldValue_optional]
      exact coherent_fieldValue inner value

omit hvisit in
theorem coherent_call (contract : Contract) (members : List (String × Json)) :
    Coherent policy.strict (call policy visit contract members) :=
  ((Coherent.gather _).map _).followedBy unexpected_of_mem_undeclared

theorem coherent_object (members : List (String × Json)) :
    Coherent policy.strict (object policy visit members) := by
  rcases marker_cases members with h | ⟨contract, hcontract, h⟩ | ⟨hconditional, hcall⟩
  · rw [object_conditional h]
    exact (coherent_conditional hvisit members).map _
  · rw [object_call hcontract h]
    exact coherent_call contract members
  · obtain ⟨d, hobject, _⟩ := object_other hconditional hcall
    rw [hobject]
    exact ⟨fun _ => List.cons_ne_nil _ _, fun _ h => nomatch h⟩

theorem coherent_node (value : Json) : Coherent policy.strict (node policy visit value) := by
  unfold node
  split
  · exact Coherent.accept _
  · exact coherent_object hvisit _
  · exact Coherent.reject _

omit hvisit

/-- Whatever the budget, the visit to an expression is coherent. -/
theorem coherent_expression (budget : Nat) :
    ∀ value, Coherent policy.strict (expression policy budget value) := by
  induction budget with
  | zero => exact fun _ => Coherent.reject _
  | succ budget ih => exact coherent_node ih

theorem coherent_root (value : Json) : Coherent policy.strict (root policy value) := by
  unfold root
  split
  · split
    · split
      · exact coherent_conditional (coherent_expression _) _
      · exact Coherent.reject _
    · exact Coherent.reject _
  · exact Coherent.reject _

theorem coherent_strategy (document : Json) :
    Coherent policy.strict (strategy policy document) := by
  unfold strategy
  split
  · refine Coherent.map _ (Coherent.followedBy ?_ unexpected_of_mem_undeclared)
    refine (coherent_member coherent_missing coherent_string).both ?_
    refine (coherent_member coherent_missing coherent_string).both ?_
    exact coherent_member coherent_missing coherent_root
  · exact Coherent.reject _

/-! ### Acceptance -/

theorem member_missing_eq_accept_iff {visit : Json → Finding α} {a : α} :
    member name members (missing name) visit = accept a
      ↔ ∃ value, Json.member? name members = some value ∧ visit value = accept a := by
  unfold member
  cases Json.member? name members with
  | none => simp [missing]
  | some value => simp

theorem conditional_eq_accept_iff {c : Conditional} :
    conditional policy visit members = accept c
      ↔ member "if" members (missing "if") visit = accept c.condition
        ∧ member "then" members (missing "then") (branch policy visit) = accept c.thenBranch
        ∧ (member "else" members (accept none) fun value =>
            (branch policy visit value).map some) = accept c.elseBranch
        ∧ OnlyDeclared policy.strict conditionalFields members := by
  unfold conditional
  simp only [map_eq_accept_iff, followedBy_eq_accept_iff, both_eq_accept_iff,
    undeclared_eq_nil_iff]
  constructor
  · rintro ⟨_, ⟨⟨hcondition, hthen, helse⟩, hdeclared⟩, rfl⟩
    exact ⟨hcondition, hthen, helse, hdeclared⟩
  · rintro ⟨hcondition, hthen, helse, hdeclared⟩
    exact ⟨(_, _, _), ⟨⟨hcondition, hthen, helse⟩, hdeclared⟩, rfl⟩

theorem call_eq_accept_iff {contract : Contract} {e : Expression} :
    call policy visit contract members = accept e
      ↔ ∃ fields, gather (fieldValues policy visit contract.fields members) = accept fields
        ∧ OnlyDeclared policy.strict ("function" :: contract.fieldNames) members
        ∧ e = .call contract.name fields := by
  unfold call
  simp only [followedBy_eq_accept_iff, map_eq_accept_iff, undeclared_eq_nil_iff]
  constructor
  · rintro ⟨⟨fields, hfields, rfl⟩, hdeclared⟩
    exact ⟨fields, hfields, hdeclared, rfl⟩
  · rintro ⟨fields, hfields, hdeclared, rfl⟩
    exact ⟨⟨fields, hfields, rfl⟩, hdeclared⟩

/-- The numbers of the items appear in diagnostics only. -/
theorem gather_mapIdx_eq_accept_iff (hvisit : ∀ v, Coherent policy.strict (visit v))
    (items : List Json) : ∀ (step : Nat → Step) (es : List Expression),
      gather (items.mapIdx fun i item => (visit item).under (step i)) = accept es
        ↔ gather (items.map visit) = accept es := by
  induction items with
  | nil => exact fun _ _ => Iff.rfl
  | cons item items ih =>
      intro step es
      rw [List.mapIdx_cons, List.map_cons, gather_cons_eq_accept_iff ((hvisit item).under _),
        gather_cons_eq_accept_iff (hvisit item)]
      simp only [under_eq_accept_iff, ih fun i => step (i + 1)]

theorem expressions_eq_accept_iff_gather_map (hvisit : ∀ v, Coherent policy.strict (visit v))
    {items : List Json} {es : List Expression} :
    expressions visit items = accept es ↔ gather (items.map visit) = accept es :=
  gather_mapIdx_eq_accept_iff hvisit items .index es

theorem strategy_object_eq_accept_iff {s : Strategy} :
    strategy policy (.object members) = accept s
      ↔ (∃ value, Json.member? "name" members = some value ∧ string value = accept s.name)
        ∧ (∃ value, Json.member? "author" members = some value ∧ string value = accept s.author)
        ∧ (∃ value, Json.member? "strategy" members = some value
            ∧ root policy value = accept s.root)
        ∧ OnlyDeclared policy.strict strategyFields members := by
  simp only [strategy, map_eq_accept_iff, followedBy_eq_accept_iff, both_eq_accept_iff,
    undeclared_eq_nil_iff, member_missing_eq_accept_iff]
  constructor
  · rintro ⟨_, ⟨⟨hname, hauthor, hroot⟩, hdeclared⟩, rfl⟩
    exact ⟨hname, hauthor, hroot, hdeclared⟩
  · rintro ⟨hname, hauthor, hroot, hdeclared⟩
    exact ⟨(_, _, _), ⟨⟨hname, hauthor, hroot⟩, hdeclared⟩, rfl⟩

theorem string_eq_accept_iff {value : Json} {s : String} :
    string value = accept s ↔ value = .string s := by
  cases value with
  | string _ => simp [string]
  | _ => simp [string]

end Validation

end StrategyDoc
