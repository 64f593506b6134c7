import StrategyDoc.Proofs.Visits

/-! # Values that represent strategies

`Represents strict value e` says that a JSON value has the parts of the expression `e`: the
marker of its function, a value for each of its fields, and nothing undeclared if `strict`.
It says nothing about the nesting or about empty branches, which are properties of `e` alone
(`Expression.Within`).

The validator reads a value as `e` exactly if the value represents `e` and `e` keeps within
the limits of the policy (`expression_eq_accept_iff`, `strategy_eq_accept_iff`).  What it
reads is therefore determined by the value alone (`Represents.unique`). -/

namespace StrategyDoc

/-! ### The relation -/

mutual

/-- The value has the parts of the expression. -/
inductive Represents (strict : Bool) : Json → Expression → Prop
  | number {n : Json.Number} : Represents strict (.number n) (.number n)
  | call {members : List (String × Json)} {contract : Contract}
      {fields : List (String × FieldValue)} (hcontract : contract ∈ Catalog.all)
      (hfunction : Json.member? "function" members = some (.string contract.name))
      (hfields : FieldsRepresent strict contract.fields members fields)
      (hdeclared : OnlyDeclared strict ("function" :: contract.fieldNames) members) :
      Represents strict (.object members) (.call contract.name fields)
  | conditional {members : List (String × Json)} {value : Json} {items : List Json}
      {condition : Expression} {thenBranch : List Expression}
      {elseBranch : Option (List Expression)}
      (hfunction : Json.member? "function" members = some (.string conditionalWord))
      (hif : Json.member? "if" members = some value)
      (hcondition : Represents strict value condition)
      (hthen : Json.member? "then" members = some (.array items))
      (hthenBranch : ItemsRepresent strict items thenBranch)
      (helse : ElseRepresents strict (Json.member? "else" members) elseBranch)
      (hdeclared : OnlyDeclared strict Validation.conditionalFields members) :
      Represents strict (.object members) (.conditional condition thenBranch elseBranch)

/-- The items represent the expressions one by one. -/
inductive ItemsRepresent (strict : Bool) : List Json → List Expression → Prop
  | nil : ItemsRepresent strict [] []
  | cons {item : Json} {items : List Json} {e : Expression} {es : List Expression}
      (hitem : Represents strict item e) (hitems : ItemsRepresent strict items es) :
      ItemsRepresent strict (item :: items) (e :: es)

/-- A branch that may be absent. -/
inductive ElseRepresents (strict : Bool) : Option Json → Option (List Expression) → Prop
  | absent : ElseRepresents strict none none
  | present {items : List Json} {es : List Expression} (h : ItemsRepresent strict items es) :
      ElseRepresents strict (some (.array items)) (some es)

/-- The value is what the kind asks for, with the parts of the field value. -/
inductive FieldRepresents (strict : Bool) : FieldKind → Json → FieldValue → Prop
  | expression {value : Json} {e : Expression} (h : Represents strict value e) :
      FieldRepresents strict .expression value (.expression e)
  | sequence {length : Option Nat} {items : List Json} {es : List Expression}
      (hlength : ∀ expected, length = some expected → items.length = expected)
      (hitems : ItemsRepresent strict items es) :
      FieldRepresents strict (.sequence length) (.array items) (.sequence es)
  | choice {allowed : List String} {s : String} (h : s ∈ allowed) :
      FieldRepresents strict (.oneOf allowed) (.string s) (.choice s)
  | text {s : String} : FieldRepresents strict .text (.string s) (.text s)
  | identifier {s : String} (h : IsVariableName s) :
      FieldRepresents strict .identifier (.string s) (.text s)
  | shape {specs : List FieldSpec} {members : List (String × Json)}
      {fields : List (String × FieldValue)}
      (hfields : FieldsRepresent strict specs members fields)
      (hdeclared : OnlyDeclared strict (specs.map (·.1)) members) :
      FieldRepresents strict (.shape specs) (.object members) (.shape fields)
  | optional {inner : FieldKind} {value : Json} {v : FieldValue}
      (h : FieldRepresents strict inner value v) :
      FieldRepresents strict (.optional inner) value v

/-- The members have the declared fields, in the order of the contract. -/
inductive FieldsRepresent (strict : Bool) :
    List FieldSpec → List (String × Json) → List (String × FieldValue) → Prop
  | nil {members : List (String × Json)} : FieldsRepresent strict [] members []
  | skip {name : String} {kind : FieldKind} {specs : List FieldSpec}
      {members : List (String × Json)} {fields : List (String × FieldValue)}
      (habsent : Json.member? name members = none) (hoptional : ¬ kind.isRequired = true)
      (hfields : FieldsRepresent strict specs members fields) :
      FieldsRepresent strict ((name, kind) :: specs) members fields
  | take {name : String} {kind : FieldKind} {specs : List FieldSpec}
      {members : List (String × Json)} {fields : List (String × FieldValue)}
      {value : Json} {v : FieldValue} (hpresent : Json.member? name members = some value)
      (hvalue : FieldRepresents strict kind value v)
      (hfields : FieldsRepresent strict specs members fields) :
      FieldsRepresent strict ((name, kind) :: specs) members ((name, v) :: fields)

end

/-- The value has the parts of the strategy. -/
inductive DocumentRepresents (strict : Bool) : Json → Strategy → Prop
  | intro {members : List (String × Json)} {value : Json} {s : Strategy}
      (hname : Json.member? "name" members = some (.string s.name))
      (hauthor : Json.member? "author" members = some (.string s.author))
      (hstrategy : Json.member? "strategy" members = some value)
      (hroot : Represents strict value s.root.toExpression)
      (hdeclared : OnlyDeclared strict Validation.strategyFields members) :
      DocumentRepresents strict (.object members) s

section inversion

variable {strict : Bool} {members : List (String × Json)} {e : Expression}

/-- An object with the marker of a conditional represents conditionals only. -/
theorem Represents.exists_conditional (h : Represents strict (.object members) e)
    (hfunction : Json.member? "function" members = some (.string conditionalWord)) :
    ∃ c : Conditional, c.toExpression = e := by
  generalize hvalue : Json.object members = value at h
  cases h with
  | number => cases hvalue
  | call hcontract hname =>
      cases hvalue
      have hsame := Json.string.inj (Option.some.inj (hname.symm.trans hfunction))
      exact absurd hsame (Catalog.name_ne_conditionalWord hcontract)
  | conditional => exact ⟨⟨_, _, _⟩, rfl⟩

/-- An object with the marker of a contract represents calls of its function only. -/
theorem Represents.exists_call {contract : Contract} (h : Represents strict (.object members) e)
    (hcontract : contract ∈ Catalog.all)
    (hfunction : Json.member? "function" members = some (.string contract.name)) :
    ∃ fields, e = .call contract.name fields
      ∧ FieldsRepresent strict contract.fields members fields
      ∧ OnlyDeclared strict ("function" :: contract.fieldNames) members := by
  generalize hvalue : Json.object members = value at h
  cases h with
  | number => cases hvalue
  | call hother hname hfields hdeclared =>
      cases hvalue
      have hsame := Json.string.inj (Option.some.inj (hfunction.symm.trans hname))
      cases Catalog.eq_of_name_eq hcontract hother hsame
      exact ⟨_, rfl, hfields, hdeclared⟩
  | conditional hname =>
      cases hvalue
      have hsame := Json.string.inj (Option.some.inj (hfunction.symm.trans hname))
      exact absurd hsame (Catalog.name_ne_conditionalWord hcontract)

theorem FieldRepresents.exists_expression {value : Json} {v : FieldValue}
    (h : FieldRepresents strict .expression value v) :
    ∃ e, v = .expression e ∧ Represents strict value e := by
  cases h with
  | expression h => exact ⟨_, rfl, h⟩

theorem FieldRepresents.exists_sequence {length : Option Nat} {value : Json} {v : FieldValue}
    (h : FieldRepresents strict (.sequence length) value v) :
    ∃ items es, value = .array items ∧ v = .sequence es ∧ ItemsRepresent strict items es := by
  cases h with
  | sequence _ hitems => exact ⟨_, _, rfl, rfl, hitems⟩

end inversion

/-! ### The limits of a policy -/

mutual

/-- Every branch of a conditional inside has an action. -/
def Expression.NoEmptyBranch : Expression → Prop
  | .number _ => True
  | .call _ fields => FieldValue.NoEmptyBranchInFields fields
  | .conditional condition thenBranch none =>
    condition.NoEmptyBranch ∧ thenBranch ≠ [] ∧ Expression.NoEmptyBranchInAll thenBranch
  | .conditional condition thenBranch (some elseBranch) =>
    condition.NoEmptyBranch ∧ (thenBranch ≠ [] ∧ Expression.NoEmptyBranchInAll thenBranch)
      ∧ elseBranch ≠ [] ∧ Expression.NoEmptyBranchInAll elseBranch

def Expression.NoEmptyBranchInAll : List Expression → Prop
  | [] => True
  | e :: rest => e.NoEmptyBranch ∧ Expression.NoEmptyBranchInAll rest

def FieldValue.NoEmptyBranch : FieldValue → Prop
  | .expression e => e.NoEmptyBranch
  | .sequence items => Expression.NoEmptyBranchInAll items
  | .choice _ => True
  | .text _ => True
  | .shape fields => FieldValue.NoEmptyBranchInFields fields

def FieldValue.NoEmptyBranchInFields : List (String × FieldValue) → Prop
  | [] => True
  | (_, value) :: rest => value.NoEmptyBranch ∧ FieldValue.NoEmptyBranchInFields rest

end

section limits

variable (policy : Policy) (budget : Nat)

/-- The expression has at most `budget` levels, and no empty branch if the policy forbids
those. -/
def Expression.Within (e : Expression) : Prop :=
  e.depth ≤ budget ∧ (policy.allowEmptyBranches = false → e.NoEmptyBranch)

def Expression.AllWithin (es : List Expression) : Prop :=
  Expression.depthOfAll es ≤ budget
    ∧ (policy.allowEmptyBranches = false → Expression.NoEmptyBranchInAll es)

def FieldValue.Within (v : FieldValue) : Prop :=
  v.depth ≤ budget ∧ (policy.allowEmptyBranches = false → v.NoEmptyBranch)

def FieldValue.FieldsWithin (fields : List (String × FieldValue)) : Prop :=
  FieldValue.depthOfFields fields ≤ budget
    ∧ (policy.allowEmptyBranches = false → FieldValue.NoEmptyBranchInFields fields)

/-- Some actions as a branch, which may have to be one action at least. -/
def Expression.BranchWithin (es : List Expression) : Prop :=
  Expression.depthOfAll es ≤ budget
    ∧ (policy.allowEmptyBranches = false → es ≠ [] ∧ Expression.NoEmptyBranchInAll es)

end limits

section limits

variable {policy : Policy} {budget : Nat}

theorem Expression.depth_pos (e : Expression) : 0 < e.depth := by
  rcases e with n | ⟨function, fields⟩ | ⟨condition, thenBranch, _ | elseBranch⟩
  all_goals
    unfold depth
    omega

theorem Expression.not_within_zero (e : Expression) : ¬ e.Within policy 0 := by
  intro h
  have hpos := e.depth_pos
  have hle := h.1
  omega

/-- The limits of two parts are the limits of each. -/
theorem max_le_and_imp_iff {m n limit : Nat} {p q r : Prop} :
    (max m n ≤ limit ∧ (p → q ∧ r)) ↔ (m ≤ limit ∧ (p → q)) ∧ n ≤ limit ∧ (p → r) := by
  rw [Nat.max_le, imp_and, and_and_and_comm]

theorem Expression.within_number (n : Json.Number) :
    (Expression.number n).Within policy (budget + 1) :=
  ⟨Nat.succ_le_succ (Nat.zero_le _), fun _ => trivial⟩

theorem Expression.within_call {function : String} {fields : List (String × FieldValue)} :
    (Expression.call function fields).Within policy (budget + 1)
      ↔ FieldValue.FieldsWithin policy budget fields := by
  unfold Within FieldValue.FieldsWithin depth NoEmptyBranch
  rw [Nat.add_comm, Nat.add_le_add_iff_right]

theorem Expression.within_conditional {condition : Expression} {thenBranch : List Expression}
    {elseBranch : Option (List Expression)} :
    (Expression.conditional condition thenBranch elseBranch).Within policy (budget + 1)
      ↔ condition.Within policy budget ∧ BranchWithin policy budget thenBranch
        ∧ ∀ es, elseBranch = some es → BranchWithin policy budget es := by
  have hadd : ∀ n, 1 + n ≤ budget + 1 ↔ n ≤ budget := by
    intro n
    omega
  cases elseBranch with
  | none =>
      simp only [Within, BranchWithin, depth, NoEmptyBranch, hadd, max_le_and_imp_iff,
        reduceCtorEq, false_imp_iff, implies_true, and_true]
  | some elseBranch =>
      simp only [Within, BranchWithin, depth, NoEmptyBranch, hadd, max_le_and_imp_iff,
        Option.some.injEq, forall_eq']

theorem Expression.branchWithin_iff {es : List Expression} :
    BranchWithin policy budget es
      ↔ (policy.allowEmptyBranches = false → es ≠ []) ∧ AllWithin policy budget es := by
  unfold BranchWithin AllWithin
  rw [imp_and, and_left_comm]

theorem Expression.allWithin_nil : AllWithin policy budget [] :=
  ⟨Nat.zero_le _, fun _ => trivial⟩

theorem Expression.allWithin_cons {e : Expression} {es : List Expression} :
    AllWithin policy budget (e :: es) ↔ e.Within policy budget ∧ AllWithin policy budget es :=
  max_le_and_imp_iff

theorem FieldValue.fieldsWithin_nil : FieldsWithin policy budget [] :=
  ⟨Nat.zero_le _, fun _ => trivial⟩

theorem FieldValue.fieldsWithin_cons {name : String} {v : FieldValue}
    {fields : List (String × FieldValue)} :
    FieldsWithin policy budget ((name, v) :: fields)
      ↔ v.Within policy budget ∧ FieldsWithin policy budget fields :=
  max_le_and_imp_iff

theorem FieldValue.within_choice (s : String) : (choice s).Within policy budget :=
  ⟨Nat.zero_le _, fun _ => trivial⟩

theorem FieldValue.within_text (s : String) : (text s).Within policy budget :=
  ⟨Nat.zero_le _, fun _ => trivial⟩

end limits

/-! ### The validator -/

namespace Validation

open Finding

section parts

variable {policy : Policy} {visit : Visitor} {budget : Nat}

/-- The visits to child expressions accept what represents an expression within the budget. -/
structure Reads (policy : Policy) (budget : Nat) (visit : Visitor) : Prop where
  coherent : ∀ value, Coherent policy.strict (visit value)
  eq_accept_iff : ∀ value e,
    visit value = accept e ↔ Represents policy.strict value e ∧ e.Within policy budget

variable (h : Reads policy budget visit)

include h

theorem expressions_eq_accept_iff (items : List Json) : ∀ es : List Expression,
    expressions visit items = accept es
      ↔ ItemsRepresent policy.strict items es ∧ Expression.AllWithin policy budget es := by
  intro es
  rw [expressions_eq_accept_iff_gather_map h.coherent]
  induction items generalizing es with
  | nil =>
      rw [List.map_nil, gather_nil_eq_accept_iff]
      constructor
      · rintro rfl
        exact ⟨.nil, Expression.allWithin_nil⟩
      · rintro ⟨⟨⟩, _⟩
        rfl
  | cons item items ih =>
      rw [List.map_cons, gather_cons_eq_accept_iff (h.coherent item)]
      simp only [h.eq_accept_iff, ih]
      constructor
      · rintro ⟨e, es, rfl, ⟨hitem, hwithin⟩, hitems, hall⟩
        exact ⟨.cons hitem hitems, Expression.allWithin_cons.mpr ⟨hwithin, hall⟩⟩
      · rintro ⟨hitems, hall⟩
        cases hitems with
        | cons hitem hitems =>
            obtain ⟨hwithin, hall⟩ := Expression.allWithin_cons.mp hall
            exact ⟨_, _, rfl, ⟨hitem, hwithin⟩, hitems, hall⟩

theorem branch_eq_accept_iff (value : Json) (es : List Expression) :
    branch policy visit value = accept es
      ↔ ∃ items, value = .array items ∧ ItemsRepresent policy.strict items es
        ∧ Expression.BranchWithin policy budget es := by
  cases value with
  | array items =>
      simp only [Json.array.injEq, exists_eq_left', Expression.branchWithin_iff]
      by_cases hempty : policy.allowEmptyBranches = false → items ≠ []
      · rw [branch_array_of_allowed hempty, expressions_eq_accept_iff h]
        constructor
        · rintro ⟨hitems, hall⟩
          refine ⟨hitems, fun hforbidden => ?_, hall⟩
          rintro rfl
          cases hitems
          exact hempty hforbidden rfl
        · rintro ⟨hitems, _, hall⟩
          exact ⟨hitems, hall⟩
      · obtain ⟨hforbidden, hnil⟩ := Classical.not_imp.mp hempty
        have hnil : items = [] := Classical.not_not.mp hnil
        rw [branch_array_of_forbidden hnil hforbidden]
        refine iff_of_false (reject_ne_accept _ _) ?_
        rintro ⟨hitems, hne, _⟩
        subst hnil
        cases hitems
        exact absurd rfl (hne hforbidden)
  | _ => exact iff_of_false (reject_ne_accept _ _) fun ⟨_, h, _⟩ => nomatch h

theorem else_eq_accept_iff (members : List (String × Json)) (es : Option (List Expression)) :
    (member "else" members (accept none) fun value => (branch policy visit value).map some)
        = accept es
      ↔ ElseRepresents policy.strict (Json.member? "else" members) es
        ∧ ∀ e, es = some e → Expression.BranchWithin policy budget e := by
  unfold member
  cases Json.member? "else" members with
  | none =>
      dsimp only
      rw [accept_eq_accept_iff]
      constructor
      · rintro rfl
        exact ⟨.absent, nofun⟩
      · rintro ⟨⟨⟩, _⟩
        rfl
  | some value =>
      dsimp only
      rw [under_eq_accept_iff, map_eq_accept_iff]
      simp only [branch_eq_accept_iff h]
      constructor
      · rintro ⟨e, ⟨items, rfl, hitems, hwithin⟩, rfl⟩
        refine ⟨.present hitems, ?_⟩
        rintro _ ⟨⟩
        exact hwithin
      · rintro ⟨helse, hwithin⟩
        cases helse with
        | present hitems => exact ⟨_, ⟨_, rfl, hitems, hwithin _ rfl⟩, rfl⟩

mutual

theorem fieldValue_eq_accept_iff : ∀ (kind : FieldKind) (value : Json) (v : FieldValue),
    fieldValue policy visit kind value = accept v
      ↔ FieldRepresents policy.strict kind value v ∧ v.Within policy budget
  | .expression, value, v => by
      rw [fieldValue_expression, map_eq_accept_iff]
      simp only [h.eq_accept_iff]
      constructor
      · rintro ⟨e, ⟨hvalue, hwithin⟩, rfl⟩
        exact ⟨.expression hvalue, hwithin⟩
      · rintro ⟨hvalue, hwithin⟩
        cases hvalue with
        | expression hvalue => exact ⟨_, ⟨hvalue, hwithin⟩, rfl⟩
  | .sequence length, value, v => by
      cases value with
      | array items =>
          rcases length_cases length items with hlength | ⟨expected, rfl, hne⟩
          · rw [fieldValue_sequence hlength, map_eq_accept_iff]
            simp only [expressions_eq_accept_iff h]
            constructor
            · rintro ⟨es, ⟨hitems, hwithin⟩, rfl⟩
              exact ⟨.sequence hlength hitems, hwithin⟩
            · rintro ⟨hvalue, hwithin⟩
              cases hvalue with
              | sequence _ hitems => exact ⟨_, ⟨hitems, hwithin⟩, rfl⟩
          · rw [fieldValue_sequence_of_length_ne hne]
            refine iff_of_false (reject_ne_accept _ _) ?_
            rintro ⟨hvalue, _⟩
            cases hvalue with
            | sequence h => exact absurd (h _ rfl) hne
      | _ => exact iff_of_false (reject_ne_accept _ _) fun ⟨h, _⟩ => nomatch h
  | .oneOf allowed, value, v => by
      cases value with
      | string s =>
          by_cases hs : s ∈ allowed
          · rw [fieldValue_oneOf_of_mem hs, accept_eq_accept_iff]
            constructor
            · rintro rfl
              exact ⟨.choice hs, FieldValue.within_choice s⟩
            · rintro ⟨⟨⟩, _⟩
              rfl
          · rw [fieldValue_oneOf_of_not_mem hs]
            refine iff_of_false (reject_ne_accept _ _) ?_
            rintro ⟨hvalue, _⟩
            cases hvalue with
            | choice h => exact absurd h hs
      | _ => exact iff_of_false (reject_ne_accept _ _) fun ⟨h, _⟩ => nomatch h
  | .text, value, v => by
      cases value with
      | string s =>
          refine (accept_eq_accept_iff (a := FieldValue.text s)).trans ?_
          constructor
          · rintro rfl
            exact ⟨.text, FieldValue.within_text s⟩
          · rintro ⟨⟨⟩, _⟩
            rfl
      | _ => exact iff_of_false (reject_ne_accept _ _) fun ⟨h, _⟩ => nomatch h
  | .identifier, value, v => by
      cases value with
      | string s =>
          by_cases hs : isIdentifier s = true
          · rw [fieldValue_identifier_of_pos hs, accept_eq_accept_iff]
            constructor
            · rintro rfl
              exact ⟨.identifier ((isIdentifier_iff s).mp hs), FieldValue.within_text s⟩
            · rintro ⟨⟨⟩, _⟩
              rfl
          · rw [fieldValue_identifier_of_neg hs]
            refine iff_of_false (reject_ne_accept _ _) ?_
            rintro ⟨hvalue, _⟩
            cases hvalue with
            | identifier h => exact absurd ((isIdentifier_iff s).mpr h) hs
      | _ => exact iff_of_false (reject_ne_accept _ _) fun ⟨h, _⟩ => nomatch h
  | .shape specs, value, v => by
      cases value with
      | object members =>
          rw [fieldValue_shape, followedBy_eq_accept_iff, map_eq_accept_iff,
            undeclared_eq_nil_iff]
          simp only [fieldValues_eq_accept_iff specs members]
          constructor
          · rintro ⟨⟨fields, ⟨hfields, hwithin⟩, rfl⟩, hdeclared⟩
            exact ⟨.shape hfields hdeclared, hwithin⟩
          · rintro ⟨hvalue, hwithin⟩
            cases hvalue with
            | shape hfields hdeclared => exact ⟨⟨_, ⟨hfields, hwithin⟩, rfl⟩, hdeclared⟩
      | _ => exact iff_of_false (reject_ne_accept _ _) fun ⟨h, _⟩ => nomatch h
  | .optional inner, value, v => by
      rw [fieldValue_optional, fieldValue_eq_accept_iff inner value]
      constructor
      · rintro ⟨hvalue, hwithin⟩
        exact ⟨.optional hvalue, hwithin⟩
      · rintro ⟨hvalue, hwithin⟩
        cases hvalue with
        | optional hvalue => exact ⟨hvalue, hwithin⟩

theorem fieldValues_eq_accept_iff :
    ∀ (specs : List FieldSpec) (members : List (String × Json))
      (fields : List (String × FieldValue)),
      gather (fieldValues policy visit specs members) = accept fields
        ↔ FieldsRepresent policy.strict specs members fields
          ∧ FieldValue.FieldsWithin policy budget fields
  | [], members, fields => by
      rw [fieldValues, gather_nil_eq_accept_iff]
      constructor
      · rintro rfl
        exact ⟨.nil, FieldValue.fieldsWithin_nil⟩
      · rintro ⟨⟨⟩, _⟩
        rfl
  | (name, kind) :: rest, members, fields => by
      have ih := fieldValues_eq_accept_iff rest members
      rw [fieldValues]
      cases hmember : Json.member? name members with
      | none =>
          by_cases hrequired : kind.isRequired = true
          · simp only [if_pos hrequired]
            have hmissing : Coherent policy.strict (missing name : Finding (String × FieldValue)) :=
              coherent_missing
            rw [gather_cons_eq_accept_iff hmissing]
            constructor
            · rintro ⟨_, _, _, hmissing, _⟩
              exact absurd (under_eq_accept_iff.mp hmissing) (reject_ne_accept _ _)
            · rintro ⟨hfields, _⟩
              cases hfields with
              | skip _ h => exact absurd hrequired h
              | take h => cases hmember.symm.trans h
          · simp only [if_neg hrequired, ih]
            constructor
            · rintro ⟨hfields, hwithin⟩
              exact ⟨.skip hmember hrequired hfields, hwithin⟩
            · rintro ⟨hfields, hwithin⟩
              cases hfields with
              | skip _ _ hfields => exact ⟨hfields, hwithin⟩
              | take h => cases hmember.symm.trans h
      | some value =>
          dsimp only
          rw [gather_cons_eq_accept_iff
            (((coherent_fieldValue h.coherent kind value).map _).under _)]
          simp only [under_eq_accept_iff, map_eq_accept_iff, ih,
            fieldValue_eq_accept_iff kind value]
          constructor
          · rintro ⟨_, fields, rfl, ⟨v, ⟨hvalue, hv⟩, rfl⟩, hfields, hwithin⟩
            exact ⟨.take hmember hvalue hfields, FieldValue.fieldsWithin_cons.mpr ⟨hv, hwithin⟩⟩
          · rintro ⟨hfields, hwithin⟩
            cases hfields with
            | skip h => cases hmember.symm.trans h
            | take h hvalue hfields =>
                cases hmember.symm.trans h
                obtain ⟨hv, hwithin⟩ := FieldValue.fieldsWithin_cons.mp hwithin
                exact ⟨_, _, rfl, ⟨_, ⟨hvalue, hv⟩, rfl⟩, hfields, hwithin⟩

end

variable {members : List (String × Json)}

/-- The levels of a conditional are one more than those of its parts. -/
theorem conditional_eq_accept_iff_represents
    (hfunction : Json.member? "function" members = some (.string conditionalWord))
    (c : Conditional) :
    conditional policy visit members = accept c
      ↔ Represents policy.strict (.object members) c.toExpression
        ∧ c.toExpression.Within policy (budget + 1) := by
  rw [conditional_eq_accept_iff, member_missing_eq_accept_iff, member_missing_eq_accept_iff,
    else_eq_accept_iff h]
  simp only [h.eq_accept_iff, branch_eq_accept_iff h, Conditional.toExpression,
    Expression.within_conditional]
  constructor
  · rintro ⟨⟨_, hif, hcondition, hwithin⟩, ⟨_, hthen, _, rfl, hthenBranch, hthenWithin⟩,
      ⟨helse, helseWithin⟩, hdeclared⟩
    exact ⟨.conditional hfunction hif hcondition hthen hthenBranch helse hdeclared,
      hwithin, hthenWithin, helseWithin⟩
  · rintro ⟨hrepresents, hwithin, hthenWithin, helseWithin⟩
    cases hrepresents with
    | conditional _ hif hcondition hthen hthenBranch helse hdeclared =>
        exact ⟨⟨_, hif, hcondition, hwithin⟩, ⟨_, hthen, _, rfl, hthenBranch, hthenWithin⟩,
          ⟨helse, helseWithin⟩, hdeclared⟩

theorem call_eq_accept_iff_represents {contract : Contract} (hcontract : contract ∈ Catalog.all)
    (hfunction : Json.member? "function" members = some (.string contract.name))
    (e : Expression) :
    call policy visit contract members = accept e
      ↔ Represents policy.strict (.object members) e ∧ e.Within policy (budget + 1) := by
  rw [call_eq_accept_iff]
  simp only [fieldValues_eq_accept_iff h]
  constructor
  · rintro ⟨fields, ⟨hfields, hwithin⟩, hdeclared, rfl⟩
    exact ⟨.call hcontract hfunction hfields hdeclared, Expression.within_call.mpr hwithin⟩
  · rintro ⟨hrepresents, hwithin⟩
    obtain ⟨fields, rfl, hfields, hdeclared⟩ := hrepresents.exists_call hcontract hfunction
    exact ⟨fields, ⟨hfields, Expression.within_call.mp hwithin⟩, hdeclared, rfl⟩

theorem object_eq_accept_iff (e : Expression) :
    object policy visit members = accept e
      ↔ Represents policy.strict (.object members) e ∧ e.Within policy (budget + 1) := by
  rcases marker_cases members with hfunction | ⟨contract, hcontract, hfunction⟩
    | ⟨hconditional, hcall⟩
  · rw [object_conditional hfunction, map_eq_accept_iff]
    simp only [conditional_eq_accept_iff_represents h hfunction]
    constructor
    · rintro ⟨c, hc, rfl⟩
      exact hc
    · rintro ⟨hrepresents, hwithin⟩
      obtain ⟨c, rfl⟩ := hrepresents.exists_conditional hfunction
      exact ⟨c, ⟨hrepresents, hwithin⟩, rfl⟩
  · rw [object_call hcontract hfunction]
    exact call_eq_accept_iff_represents h hcontract hfunction e
  · obtain ⟨d, hobject, _⟩ := object_other hconditional hcall
    rw [hobject, eq_accept_iff]
    constructor
    · rintro ⟨⟨⟩, _⟩
    · rintro ⟨hrepresents, _⟩
      cases hrepresents with
      | call hcontract hname => exact absurd hname (hcall _ hcontract)
      | conditional hname => exact absurd hname hconditional

/-- A visit to a node reads one level more than the visits to its parts. -/
theorem reads_node : Reads policy (budget + 1) (node policy visit) where
  coherent := coherent_node h.coherent
  eq_accept_iff value e := by
    cases value with
    | number n =>
        refine (accept_eq_accept_iff (a := Expression.number n)).trans ?_
        constructor
        · rintro rfl
          exact ⟨.number, Expression.within_number n⟩
        · rintro ⟨⟨⟩, _⟩
          rfl
    | object members => exact object_eq_accept_iff h e
    | _ => exact iff_of_false (reject_ne_accept _ _) fun ⟨h, _⟩ => nomatch h

end parts

variable {policy : Policy}

theorem reads_expression (budget : Nat) : Reads policy budget (expression policy budget) := by
  induction budget with
  | zero =>
      refine ⟨coherent_expression 0, fun value e => ?_⟩
      exact iff_of_false (reject_ne_accept _ _) fun h => absurd h.2 e.not_within_zero
  | succ budget ih => exact reads_node ih

/-- **What an accepted value is read as.**  A visit accepts a value as an expression exactly if
the value represents the expression and the expression keeps within the limits. -/
theorem expression_eq_accept_iff {budget : Nat} {value : Json} {e : Expression} :
    expression policy budget value = accept e
      ↔ Represents policy.strict value e ∧ e.Within policy budget :=
  (reads_expression budget).eq_accept_iff value e

/-- The visit to the root counts the root as a level even where the limit is zero: its
condition is cut off then. -/
theorem root_eq_accept_iff {value : Json} {c : Conditional} :
    root policy value = accept c
      ↔ Represents policy.strict value c.toExpression
        ∧ c.toExpression.Within policy policy.maxDepth := by
  rcases root_cases value with ⟨members, rfl, hfunction⟩ | hother
  · have hreads : Reads policy _ _ := reads_expression (policy.maxDepth - 1)
    rw [root_conditional hfunction, conditional_eq_accept_iff_represents hreads hfunction]
    by_cases hzero : policy.maxDepth = 0
    · rw [hzero]
      refine ⟨?_, fun h => absurd h.2 (Expression.not_within_zero _)⟩
      rintro ⟨_, hwithin⟩
      obtain ⟨hcondition, _⟩ := Expression.within_conditional.mp hwithin
      exact absurd hcondition (Expression.not_within_zero _)
    · rw [Nat.sub_add_cancel (Nat.pos_of_ne_zero hzero)]
  · rw [root_other hother]
    refine iff_of_false (reject_ne_accept _ _) ?_
    rintro ⟨hrepresents, _⟩
    generalize hconditional : c.toExpression = e at hrepresents
    cases hrepresents with
    | number => cases hconditional
    | call => cases hconditional
    | conditional hfunction => exact absurd hfunction (hother _ rfl)

theorem strategy_eq_accept_iff {document : Json} {s : Strategy} :
    strategy policy document = accept s
      ↔ DocumentRepresents policy.strict document s
        ∧ s.root.toExpression.Within policy policy.maxDepth := by
  cases document with
  | object members =>
      rw [strategy_object_eq_accept_iff]
      simp only [string_eq_accept_iff, root_eq_accept_iff]
      constructor
      · rintro ⟨⟨_, hname, rfl⟩, ⟨_, hauthor, rfl⟩, ⟨_, hstrategy, hroot, hwithin⟩, hdeclared⟩
        exact ⟨.intro hname hauthor hstrategy hroot hdeclared, hwithin⟩
      · rintro ⟨⟨hname, hauthor, hstrategy, hroot, hdeclared⟩, hwithin⟩
        exact ⟨⟨_, hname, rfl⟩, ⟨_, hauthor, rfl⟩, ⟨_, hstrategy, hroot, hwithin⟩, hdeclared⟩
  | _ => exact iff_of_false (reject_ne_accept _ _) fun ⟨h, _⟩ => nomatch h

end Validation

open Validation in
/-- **What an accepted document is read as.** -/
theorem Strategy.ofJson?_eq_ok_iff {policy : Policy} {document : Json} {s : Strategy} :
    Strategy.ofJson? policy document = .ok s
      ↔ DocumentRepresents policy.strict document s
        ∧ s.root.toExpression.Within policy policy.maxDepth := by
  rw [ofJson?, Finding.result_eq_ok_iff_eq_accept, strategy_eq_accept_iff]

open Validation in
theorem Expression.ofJson?_eq_ok_iff {policy : Policy} {value : Json} {e : Expression} :
    Expression.ofJson? policy value = .ok e
      ↔ Represents policy.strict value e ∧ e.Within policy policy.maxDepth := by
  rw [ofJson?, Finding.result_eq_ok_iff_eq_accept, expression_eq_accept_iff]

/-! ### Uniqueness -/

section uniqueness

variable {strict : Bool}

/-- A value represents one expression at most: the one that it is read as under a policy that
sets no limits to either. -/
theorem Represents.unique {value : Json} {e e' : Expression} (h : Represents strict value e)
    (h' : Represents strict value e') : e = e' := by
  let policy : Policy := ⟨strict, 0, true⟩
  have hread : Validation.expression policy (max e.depth e'.depth) value = .accept e :=
    Validation.expression_eq_accept_iff.mpr ⟨h, Nat.le_max_left _ _, nofun⟩
  have hread' : Validation.expression policy (max e.depth e'.depth) value = .accept e' :=
    Validation.expression_eq_accept_iff.mpr ⟨h', Nat.le_max_right _ _, nofun⟩
  exact Finding.accept_eq_accept_iff.mp (hread.symm.trans hread')

theorem Conditional.toExpression_injective {c c' : Conditional}
    (h : c.toExpression = c'.toExpression) : c = c' := by
  obtain ⟨condition, thenBranch, elseBranch⟩ := c
  cases h
  rfl

theorem DocumentRepresents.unique {document : Json} {s s' : Strategy}
    (h : DocumentRepresents strict document s) (h' : DocumentRepresents strict document s') :
    s = s' := by
  obtain ⟨name, author, root⟩ := s
  obtain ⟨name', author', root'⟩ := s'
  cases h with
  | intro hname hauthor hstrategy hroot =>
      cases h' with
      | intro hname' hauthor' hstrategy' hroot' =>
          cases hname.symm.trans hname'
          cases hauthor.symm.trans hauthor'
          cases hstrategy.symm.trans hstrategy'
          cases Conditional.toExpression_injective (hroot.unique hroot')
          rfl

end uniqueness

end StrategyDoc
