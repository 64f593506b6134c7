import StrategyDoc.Proofs.Visits

/-! # The walk through a document

Whatever the walk visits stands at a place: there is a value, something is asked for
(`Role`), and an expression there is at some nesting level.  `Reports policy place ds` says in
rules which diagnostics come from a place.  A value that is not what is asked for has one
(`Misfit`), and one without parts has none otherwise.  An array or an object has those of its
parts in order, each behind the step to its part, and an object those of its absent and
undeclared members besides.

The visits follow the rules (`reports_ofJson?_strategy`, `reports_ofJson?_expression`).  A
property of all diagnostics of a document is thus an induction on the rules, and does not
depend on how the visits are put together. -/

namespace StrategyDoc

/-! ### Places -/

/-- What is asked for where a value stands. -/
inductive Role where
  /-- A whole document. -/
  | document
  /-- The conditional at the root of a strategy. -/
  | root
  /-- The actions of a conditional. -/
  | branch
  /-- What a field of the kind may hold. -/
  | field (kind : FieldKind)

namespace Role

/-- The kind of value that is asked for. -/
def kind : Role → FieldKind
  | document => .shape Json.documentSpecs
  | root => .expression
  | branch => .sequence none
  | field kind => kind

/-- The levels between a value and its parts: an expression is one level above them. -/
def levels : Role → Nat
  | root => 1
  | field .expression => 1
  | _ => 0

end Role

/-- A declared field of an object, with what is asked for in it. -/
structure Slot where
  name : String
  kind : FieldKind
  role : Role

/-- The field of a contract or shape. -/
def Slot.ofSpec (spec : FieldSpec) : Slot := ⟨spec.1, spec.2, .field spec.2.bare⟩

def documentSlots : List Slot :=
  [⟨"name", .text, .field .text⟩, ⟨"author", .text, .field .text⟩,
    ⟨"strategy", .expression, .root⟩]

def conditionalSlots : List Slot :=
  [⟨"function", .text, .field .text⟩, ⟨"if", .expression, .field .expression⟩,
    ⟨"then", .sequence none, .branch⟩, ⟨"else", .optional (.sequence none), .branch⟩]

/-- The slots of an object with these members, in the order of the walk. -/
inductive Declares : Role → List (String × Json) → List Slot → Prop
  | document {members : List (String × Json)} : Declares .document members documentSlots
  | conditional {role : Role} {members : List (String × Json)} (hrole : role.kind = .expression)
      (hfunction : Json.member? "function" members = some (.string conditionalWord)) :
      Declares role members conditionalSlots
  | call {members : List (String × Json)} {contract : Contract}
      (hcontract : contract ∈ Catalog.all)
      (hfunction : Json.member? "function" members = some (.string contract.name)) :
      Declares (.field .expression) members ((Json.callSpecs contract).map Slot.ofSpec)
  | shape {members : List (String × Json)} {specs : List FieldSpec} :
      Declares (.field (.shape specs)) members (specs.map Slot.ofSpec)

/-- A slot is one of a document or conditional, or it comes from a contract or shape. -/
theorem Declares.slot_cases {role : Role} {members : List (String × Json)} {slots : List Slot}
    {slot : Slot} (h : Declares role members slots) (hslot : slot ∈ slots) :
    (role = .document ∧ slot ∈ documentSlots) ∨ slot ∈ conditionalSlots
      ∨ ∃ spec, slot = Slot.ofSpec spec := by
  cases h with
  | document => exact .inl ⟨rfl, hslot⟩
  | conditional => exact .inr (.inl hslot)
  | call =>
      obtain ⟨spec, _, rfl⟩ := List.mem_map.mp hslot
      exact .inr (.inr ⟨spec, rfl⟩)
  | shape =>
      obtain ⟨spec, _, rfl⟩ := List.mem_map.mp hslot
      exact .inr (.inr ⟨spec, rfl⟩)

/-- A value where the walk has come to it. -/
structure Place where
  /-- The nesting level of an expression that stands here. -/
  level : Nat
  role : Role
  value : Json

/-! ### Values that do not fit -/

namespace FieldKind

/-- The value is of a sort that the kind allows. -/
def Admits : FieldKind → Json → Prop
  | expression, .number _ => True
  | expression, .object _ => True
  | sequence _, .array _ => True
  | oneOf _, .string _ => True
  | text, .string _ => True
  | identifier, .string _ => True
  | shape _, .object _ => True
  | optional inner, value => inner.Admits value
  | _, _ => False

/-- What is expected instead of a value of another sort. -/
def expectation : FieldKind → Expectation
  | expression => .expression
  | sequence _ => .array
  | oneOf _ => .string
  | text => .string
  | identifier => .identifier
  | shape _ => .object
  | optional inner => inner.expectation

end FieldKind

/-- The value is not what is asked for at the place, and the diagnostic says why. -/
inductive Misfit (policy : Policy) : Place → Diagnostic → Prop
  /-- The root is the first level even if no level is allowed. -/
  | tooDeep {level : Nat} {value : Json} (hdeep : policy.maxDepth < level)
      (hfirst : level ≤ max policy.maxDepth 1 + 1) :
      Misfit policy ⟨level, .field .expression, value⟩ (Defect.tooDeep policy.maxDepth).diagnostic
  | wrongSort {level : Nat} (role : Role) {value : Json} (h : ¬ role.kind.Admits value) :
      Misfit policy ⟨level, role, value⟩ (Defect.wrongSort role.kind.expectation value).diagnostic
  | notIdentifier {level : Nat} {s : String} (h : ¬ IsVariableName s) :
      Misfit policy ⟨level, .field .identifier, .string s⟩ (Defect.notIdentifier s).diagnostic
  | notAllowed {level : Nat} {allowed : List String} {s : String} (h : s ∉ allowed) :
      Misfit policy ⟨level, .field (.oneOf allowed), .string s⟩
        (Defect.notAllowed s allowed).diagnostic
  | wrongLength {level expected : Nat} {items : List Json} (h : items.length ≠ expected) :
      Misfit policy ⟨level, .field (.sequence (some expected)), .array items⟩
        (Defect.wrongLength expected items.length).diagnostic
  | emptyBranch {level : Nat} (h : policy.allowEmptyBranches = false) :
      Misfit policy ⟨level, .branch, .array []⟩ Defect.emptyBranch.diagnostic
  | noMarker {level : Nat} {members : List (String × Json)}
      (h : Json.member? "function" members = none) :
      Misfit policy ⟨level, .field .expression, .object members⟩
        ((Defect.missingField "function").diagnostic.under (.field "function"))
  | wrongMarker {level : Nat} {members : List (String × Json)} {marker : Json}
      (h : Json.member? "function" members = some marker)
      (hmarker : ∀ name, marker ≠ .string name) :
      Misfit policy ⟨level, .field .expression, .object members⟩
        ((Defect.wrongSort .functionName marker).diagnostic.under (.field "function"))
  | unknownFunction {level : Nat} {members : List (String × Json)} {name : String}
      (h : Json.member? "function" members = some (.string name)) (hname : name ≠ conditionalWord)
      (hcall : ∀ contract ∈ Catalog.all, contract.name ≠ name) :
      Misfit policy ⟨level, .field .expression, .object members⟩
        (Defect.unknownFunction name).diagnostic
  | notStrategy {level : Nat} {value : Json} (h : ∀ members, value ≠ .object members) :
      Misfit policy ⟨level, .document, value⟩ (Defect.notStrategy value).diagnostic
  | notConditional {level : Nat} {value : Json}
      (h : ∀ members, value = .object members →
        Json.member? "function" members ≠ some (.string conditionalWord)) :
      Misfit policy ⟨level, .root, value⟩ (Defect.notConditional value).diagnostic

/-- A value without parts. -/
def Json.IsScalar : Json → Prop
  | .array _ => False
  | .object _ => False
  | _ => True

/-! ### Diagnostics -/

namespace Validation

/-- The diagnostics of the items of an array, in order. -/
def itemErrors (found : Json → List Diagnostic) (items : List Json) : List Diagnostic :=
  items.zipIdx.flatMap fun (item, i) => (found item).map (·.under (.index i))

/-- The diagnostics of a declared field: it may be absent where it is required. -/
def slotErrors (found : Slot → Json → List Diagnostic) (members : List (String × Json))
    (slot : Slot) : List Diagnostic :=
  match Json.member? slot.name members with
  | some value => (found slot value).map (·.under (.field slot.name))
  | none =>
    if slot.kind.isRequired then
      [(Defect.missingField slot.name).diagnostic.under (.field slot.name)]
    else []

end Validation

open Validation in
/-- The diagnostics are those of a visit to the place. -/
inductive Reports (policy : Policy) : Place → List Diagnostic → Prop
  | nothing {level : Nat} {role : Role} {value : Json} (h : value.IsScalar) :
      Reports policy ⟨level, role, value⟩ []
  | misfit {place : Place} {d : Diagnostic} (h : Misfit policy place d) : Reports policy place [d]
  | items {level : Nat} {role : Role} {length : Option Nat} {items : List Json}
      {found : Json → List Diagnostic} (hrole : role.kind = .sequence length)
      (h : ∀ item ∈ items, Reports policy ⟨level, .field .expression, item⟩ (found item)) :
      Reports policy ⟨level, role, .array items⟩ (itemErrors found items)
  | fields {level : Nat} {role : Role} {members : List (String × Json)} {slots : List Slot}
      {found : Slot → Json → List Diagnostic} (hslots : Declares role members slots)
      (hnodup : (slots.map (·.name)).Nodup)
      (h : ∀ slot ∈ slots, ∀ value, Json.member? slot.name members = some value →
        Reports policy ⟨level + role.levels, slot.role, value⟩ (found slot value)) :
      Reports policy ⟨level, role, .object members⟩
        (slots.flatMap (slotErrors found members)
          ++ undeclared policy (slots.map (·.name)) members)

namespace Validation

open Finding

section visits

variable {policy : Policy} {visit : Visitor} {members : List (String × Json)}

section slot

variable {found : Slot → Json → List Diagnostic} {slot : Slot}

theorem slotErrors_of_member? {value : Json} (h : Json.member? slot.name members = some value) :
    slotErrors found members slot = (found slot value).map (·.under (.field slot.name)) := by
  unfold slotErrors
  rw [h]

theorem slotErrors_of_required (h : Json.member? slot.name members = none)
    (hrequired : slot.kind.isRequired = true) :
    slotErrors found members slot
      = [(Defect.missingField slot.name).diagnostic.under (.field slot.name)] := by
  unfold slotErrors
  rw [h]
  exact if_pos hrequired

theorem slotErrors_of_optional (h : Json.member? slot.name members = none)
    (hoptional : ¬ slot.kind.isRequired = true) : slotErrors found members slot = [] := by
  unfold slotErrors
  rw [h]
  exact if_neg hoptional

end slot

/-! ### What is among the diagnostics -/

section membership

variable {d : Diagnostic}

theorem mem_itemErrors {found : Json → List Diagnostic} {items : List Json} :
    d ∈ itemErrors found items
      ↔ ∃ i item, items[i]? = some item ∧ ∃ e ∈ found item, d = e.under (.index i) := by
  simp only [itemErrors, List.mem_flatMap, List.mem_map, Prod.exists,
    List.mk_mem_zipIdx_iff_getElem?, eq_comm (a := d)]
  exact exists_comm

theorem mem_slotErrors {found : Slot → Json → List Diagnostic} {slot : Slot} :
    d ∈ slotErrors found members slot
      ↔ (∃ value, Json.member? slot.name members = some value
          ∧ ∃ e ∈ found slot value, d = e.under (.field slot.name))
        ∨ Json.member? slot.name members = none ∧ slot.kind.isRequired = true
          ∧ d = (Defect.missingField slot.name).diagnostic.under (.field slot.name) := by
  cases hmember : Json.member? slot.name members with
  | none =>
      by_cases hrequired : slot.kind.isRequired = true
      · simp [slotErrors_of_required hmember hrequired, hrequired]
      · simp [slotErrors_of_optional hmember hrequired, hrequired]
  | some value => simp [slotErrors_of_member? hmember, eq_comm (a := d)]

theorem mem_undeclared {declared : List String} :
    d ∈ undeclared policy declared members
      ↔ policy.strict = true ∧ ∃ name ∈ members.map (·.1), name ∉ declared
          ∧ d = (Defect.unexpectedField name).diagnostic.under (.field name) := by
  unfold undeclared
  by_cases hstrict : policy.strict = true
  · simp [hstrict, and_assoc, eq_comm (a := d)]
  · simp [hstrict]

/-- What is said about a slot is said behind the step to it. -/
theorem exists_under_of_mem_slotErrors {found : Slot → Json → List Diagnostic} {slot : Slot}
    (h : d ∈ slotErrors found members slot) :
    ∃ e : Diagnostic, d = e.under (.field slot.name) := by
  rcases mem_slotErrors.mp h with ⟨_, _, e, _, rfl⟩ | ⟨_, _, rfl⟩
  · exact ⟨e, rfl⟩
  · exact ⟨_, rfl⟩

end membership

/-! ### The visits -/

/-- The diagnostics of the value in a slot. -/
def partErrors (policy : Policy) (visit : Visitor) (slot : Slot) (value : Json) :
    List Diagnostic :=
  match slot.role with
  | .branch => (branch policy visit value).errors
  | .root => (root policy value).errors
  | _ => (fieldValue policy visit slot.kind value).errors

theorem errors_expressions (items : List Json) :
    (expressions visit items).errors = itemErrors (fun item => (visit item).errors) items := by
  unfold expressions itemErrors
  rw [errors_gather, List.mapIdx_eq_zipIdx_map, List.flatMap_map]
  rfl

theorem map_name_ofSpec (specs : List FieldSpec) :
    (specs.map Slot.ofSpec).map (·.name) = specs.map (·.1) := by
  rw [List.map_map]
  rfl

theorem errors_fieldValues (specs : List FieldSpec) :
    (fieldValues policy visit specs members).flatMap (·.errors)
      = (specs.map Slot.ofSpec).flatMap (slotErrors (partErrors policy visit) members) := by
  induction specs with
  | nil =>
      rw [fieldValues]
      rfl
  | cons spec specs ih =>
      obtain ⟨name, kind⟩ := spec
      rw [fieldValues, List.map_cons, List.flatMap_cons, ← ih]
      cases hmember : Json.member? name members with
      | none =>
          by_cases hrequired : kind.isRequired = true
          · rw [slotErrors_of_required hmember hrequired]
            simp only [if_pos hrequired]
            rfl
          · rw [slotErrors_of_optional hmember hrequired]
            simp only [if_neg hrequired]
            rfl
      | some value =>
          rw [slotErrors_of_member? hmember]
          rfl

theorem errors_shape (specs : List FieldSpec) :
    (fieldValue policy visit (.shape specs) (.object members)).errors
      = (specs.map Slot.ofSpec).flatMap (slotErrors (partErrors policy visit) members)
        ++ undeclared policy ((specs.map Slot.ofSpec).map (·.name)) members := by
  rw [fieldValue_shape, errors_followedBy, errors_map, errors_gather, errors_fieldValues,
    map_name_ofSpec]

/-- The marker of a call has been read when its fields are visited. -/
theorem errors_call_slots {contract : Contract}
    (hfunction : Json.member? "function" members = some (.string contract.name)) :
    (call policy visit contract members).errors
      = ((Json.callSpecs contract).map Slot.ofSpec).flatMap
          (slotErrors (partErrors policy visit) members)
        ++ undeclared policy (((Json.callSpecs contract).map Slot.ofSpec).map (·.name))
          members := by
  have hmarker : slotErrors (partErrors policy visit) members (Slot.ofSpec ("function", .text))
      = [] := by
    simp only [slotErrors, Slot.ofSpec, hfunction]
    rfl
  rw [errors_call, errors_fieldValues, map_name_ofSpec, Json.callSpecs, List.map_cons,
    List.flatMap_cons, hmarker, List.nil_append]
  rfl

theorem errors_conditional_slots
    (hfunction : Json.member? "function" members = some (.string conditionalWord)) :
    (conditional policy visit members).errors
      = conditionalSlots.flatMap (slotErrors (partErrors policy visit) members)
        ++ undeclared policy (conditionalSlots.map (·.name)) members := by
  have hmarker : slotErrors (partErrors policy visit) members ⟨"function", .text, .field .text⟩
      = [] := by
    simp only [slotErrors, hfunction]
    rfl
  have hcondition : (member "if" members (missing "if") visit).errors
      = slotErrors (partErrors policy visit) members ⟨"if", .expression, .field .expression⟩ := by
    simp only [errors_member, slotErrors, partErrors, fieldValue_expression, errors_map]
    cases Json.member? "if" members <;> rfl
  have hthen : (member "then" members (missing "then") (branch policy visit)).errors
      = slotErrors (partErrors policy visit) members ⟨"then", .sequence none, .branch⟩ := by
    rw [errors_member, slotErrors]
    cases Json.member? "then" members <;> rfl
  have helse : (member "else" members (accept none) fun value =>
        (branch policy visit value).map some).errors
      = slotErrors (partErrors policy visit) members
          ⟨"else", .optional (.sequence none), .branch⟩ := by
    rw [errors_member, slotErrors]
    cases Json.member? "else" members <;> rfl
  rw [errors_conditional, hcondition, hthen, helse]
  simp only [conditionalSlots, List.flatMap_cons, List.flatMap_nil, List.append_nil, hmarker,
    List.nil_append]
  rfl

theorem errors_string (policy : Policy) (visit : Visitor) (value : Json) :
    (string value).errors = (fieldValue policy visit .text value).errors := by
  cases value <;> rfl

theorem errors_strategy_slots (policy : Policy) (visit : Visitor) :
    (strategy policy (.object members)).errors
      = documentSlots.flatMap (slotErrors (partErrors policy visit) members)
        ++ undeclared policy (documentSlots.map (·.name)) members := by
  have htext : ∀ name, (member name members (missing name) string).errors
      = slotErrors (partErrors policy visit) members ⟨name, .text, .field .text⟩ := by
    intro name
    simp only [errors_member, slotErrors, partErrors, errors_string policy visit]
    cases Json.member? name members <;> rfl
  have hroot : (member "strategy" members (missing "strategy") (root policy)).errors
      = slotErrors (partErrors policy visit) members ⟨"strategy", .expression, .root⟩ := by
    rw [errors_member, slotErrors]
    cases Json.member? "strategy" members <;> rfl
  rw [errors_strategy, htext, htext, hroot]
  simp only [documentSlots, List.flatMap_cons, List.flatMap_nil, List.append_nil]
  rfl

end visits

/-! ### The visits follow the rules -/

section reports

variable {policy : Policy} {visit : Visitor} {level : Nat}

theorem reports_expressions
    (hvisit : ∀ v, Reports policy ⟨level, .field .expression, v⟩ (visit v).errors)
    {role : Role} {length : Option Nat} (hrole : role.kind = .sequence length)
    (items : List Json) :
    Reports policy ⟨level, role, .array items⟩ (expressions visit items).errors := by
  rw [errors_expressions]
  exact .items hrole fun item _ => hvisit item

theorem reports_branch
    (hvisit : ∀ v, Reports policy ⟨level, .field .expression, v⟩ (visit v).errors)
    (value : Json) :
    Reports policy ⟨level, .branch, value⟩ (branch policy visit value).errors := by
  cases value with
  | array items =>
      rcases branch_cases policy items with hallowed | ⟨hnil, hforbidden⟩
      · rw [branch_array_of_allowed hallowed]
        exact reports_expressions hvisit rfl items
      · rw [branch_array_of_forbidden hnil hforbidden, hnil]
        exact .misfit (.emptyBranch hforbidden)
  | _ => exact .misfit (.wrongSort .branch id)

mutual

theorem reports_fieldValue
    (hvisit : ∀ v, Reports policy ⟨level, .field .expression, v⟩ (visit v).errors) :
    ∀ (kind : FieldKind), kind.WellNamed = true → ∀ value : Json,
      Reports policy ⟨level, .field kind.bare, value⟩ (fieldValue policy visit kind value).errors
  | .expression, _, value => by
      rw [fieldValue_expression]
      exact hvisit value
  | .sequence length, _, value => by
      cases value with
      | array items =>
          rcases length_cases length items with hlength | ⟨expected, rfl, hne⟩
          · rw [fieldValue_sequence hlength]
            exact reports_expressions hvisit rfl items
          · rw [fieldValue_sequence_of_length_ne hne]
            exact .misfit (.wrongLength hne)
      | _ => exact .misfit (.wrongSort (.field (.sequence length)) id)
  | .oneOf allowed, _, value => by
      cases value with
      | string s =>
          by_cases hs : s ∈ allowed
          · rw [fieldValue_oneOf_of_mem hs]
            exact .nothing trivial
          · rw [fieldValue_oneOf_of_not_mem hs]
            exact .misfit (.notAllowed hs)
      | _ => exact .misfit (.wrongSort (.field (.oneOf allowed)) id)
  | .text, _, value => by
      cases value with
      | string s => exact .nothing trivial
      | _ => exact .misfit (.wrongSort (.field .text) id)
  | .identifier, _, value => by
      cases value with
      | string s =>
          by_cases hs : isIdentifier s = true
          · rw [fieldValue_identifier_of_pos hs]
            exact .nothing trivial
          · rw [fieldValue_identifier_of_neg hs]
            exact .misfit (.notIdentifier fun h => hs ((isIdentifier_iff s).mpr h))
      | _ => exact .misfit (.wrongSort (.field .identifier) id)
  | .shape specs, hkind, value => by
      cases value with
      | object members =>
          have hspecs := WellNamed.shape hkind
          rw [errors_shape]
          refine .fields .shape ((map_name_ofSpec specs).symm ▸ hspecs.1) ?_
          rw [List.forall_mem_map]
          exact fun spec hspec value _ => reports_specs hvisit specs hspecs spec hspec value
      | _ => exact .misfit (.wrongSort (.field (.shape specs)) id)
  | .optional inner, hkind, value => by
      rw [fieldValue_optional]
      exact reports_fieldValue hvisit inner (WellNamed.optional hkind) value

theorem reports_specs
    (hvisit : ∀ v, Reports policy ⟨level, .field .expression, v⟩ (visit v).errors) :
    ∀ (specs : List FieldSpec), WellNamed specs → ∀ spec ∈ specs, ∀ value : Json,
      Reports policy ⟨level, .field spec.2.bare, value⟩
        (fieldValue policy visit spec.2 value).errors
  | [], _ => nofun
  | (_, kind) :: specs, hspecs => by
      rw [List.forall_mem_cons]
      exact ⟨reports_fieldValue hvisit kind hspecs.head, reports_specs hvisit specs hspecs.tail⟩

end

end reports

section walk

variable {policy : Policy} {visit : Visitor} {level : Nat} {members : List (String × Json)}
  (hvisit : ∀ value, Reports policy ⟨level + 1, .field .expression, value⟩ (visit value).errors)

include hvisit

theorem reports_conditional {role : Role} (hrole : role.kind = .expression)
    (hlevels : role.levels = 1)
    (hfunction : Json.member? "function" members = some (.string conditionalWord)) :
    Reports policy ⟨level, role, .object members⟩ (conditional policy visit members).errors := by
  have hnodup : (conditionalSlots.map (·.name)).Nodup := by
    show ["function", "if", "then", "else"].Nodup
    decide
  rw [errors_conditional_slots hfunction]
  refine .fields (.conditional hrole hfunction) hnodup ?_
  rw [hlevels]
  simp only [conditionalSlots, List.forall_mem_cons]
  refine ⟨fun value _ => ?_, fun value _ => ?_, fun value _ => ?_, fun value _ => ?_,
    List.forall_mem_nil _⟩
  · exact reports_fieldValue hvisit .text rfl value
  · exact reports_fieldValue hvisit .expression rfl value
  · exact reports_branch hvisit value
  · exact reports_branch hvisit value

theorem reports_call {contract : Contract} (hcontract : contract ∈ Catalog.all)
    (hfunction : Json.member? "function" members = some (.string contract.name)) :
    Reports policy ⟨level, .field .expression, .object members⟩
      (call policy visit contract members).errors := by
  have hspecs : WellNamed (Json.callSpecs contract) :=
    Json.nodeSpecs_call hcontract hfunction ▸ Json.wellNamed_nodeSpecs members
  rw [errors_call_slots hfunction]
  refine .fields (.call hcontract hfunction) ((map_name_ofSpec _).symm ▸ hspecs.1) ?_
  rw [List.forall_mem_map]
  exact fun spec hspec value _ => reports_specs hvisit _ hspecs spec hspec value

theorem reports_object :
    Reports policy ⟨level, .field .expression, .object members⟩
      (object policy visit members).errors := by
  rcases marker_cases members with hfunction | ⟨contract, hcontract, hfunction⟩
    | ⟨hconditional, hcall⟩
  · rw [object_conditional hfunction, errors_map]
    exact reports_conditional hvisit rfl rfl hfunction
  · rw [object_call hcontract hfunction]
    exact reports_call hvisit hcontract hfunction
  · rcases other_marker_cases hconditional hcall with h | ⟨marker, h, hmarker⟩
      | ⟨name, h, hname, hfind⟩
    · rw [object_unmarked h]
      exact .misfit (.noMarker h)
    · rw [object_wrongMarker h hmarker]
      exact .misfit (.wrongMarker h hmarker)
    · have hnone : ∀ contract ∈ Catalog.all, contract.name ≠ name := by
        rintro contract hcontract rfl
        rw [Catalog.find?_name hcontract] at hfind
        cases hfind
      rw [object_unknown h hname hfind]
      exact .misfit (.unknownFunction h hname hnone)

theorem reports_node (value : Json) :
    Reports policy ⟨level, .field .expression, value⟩ (node policy visit value).errors := by
  cases value with
  | number n => exact .nothing trivial
  | object members => exact reports_object hvisit
  | _ => exact .misfit (.wrongSort (.field .expression) id)

omit hvisit

/-- The budget at a level is what the limit leaves for it and the levels below. -/
theorem reports_expression {budget : Nat} : ∀ {level : Nat},
    policy.maxDepth + 1 - level = budget → level ≤ max policy.maxDepth 1 + 1 → ∀ value,
      Reports policy ⟨level, .field .expression, value⟩
        (expression policy budget value).errors := by
  induction budget with
  | zero =>
      intro level hbudget hfirst value
      exact .misfit (.tooDeep (by omega) hfirst)
  | succ budget ih =>
      intro level hbudget hfirst value
      exact reports_node (ih (by omega) (by omega)) value

theorem reports_root (value : Json) :
    Reports policy ⟨1, .root, value⟩ (root policy value).errors := by
  rcases root_cases value with ⟨members, rfl, hfunction⟩ | hother
  · have hvisit : ∀ v, Reports policy ⟨1 + 1, .field .expression, v⟩
        (expression policy (policy.maxDepth - 1) v).errors :=
      reports_expression rfl (by omega)
    rw [root_conditional hfunction]
    exact reports_conditional hvisit rfl rfl hfunction
  · rw [root_other hother]
    exact .misfit (.notConditional hother)

theorem reports_strategy (document : Json) :
    Reports policy ⟨1, .document, document⟩ (strategy policy document).errors := by
  cases document with
  | object members =>
      have hnodup : (documentSlots.map (·.name)).Nodup := by
        show ["name", "author", "strategy"].Nodup
        decide
      have hvisit : ∀ v, Reports policy ⟨1, .field .expression, v⟩
          (expression policy policy.maxDepth v).errors := reports_expression rfl (by omega)
      rw [errors_strategy_slots policy (expression policy policy.maxDepth)]
      refine .fields .document hnodup ?_
      simp only [documentSlots, List.forall_mem_cons]
      refine ⟨fun value _ => ?_, fun value _ => ?_, fun value _ => ?_, List.forall_mem_nil _⟩
      · exact reports_fieldValue hvisit .text rfl value
      · exact reports_fieldValue hvisit .text rfl value
      · exact reports_root value
  | _ => exact .misfit (.notStrategy (by simp))

/-- **The diagnostics of a document** are those that the rules give. -/
theorem reports_ofJson?_strategy (policy : Policy) (document : Json) :
    Reports policy ⟨1, .document, document⟩
      (Diagnostic.ofResult (Strategy.ofJson? policy document)) := by
  rw [Strategy.ofJson?, ofResult_result]
  exact reports_strategy document

theorem reports_ofJson?_expression (policy : Policy) (value : Json) :
    Reports policy ⟨1, .field .expression, value⟩
      (Diagnostic.ofResult (Expression.ofJson? policy value)) := by
  rw [Expression.ofJson?, ofResult_result]
  exact reports_expression rfl (by omega) value

end walk

end Validation

end StrategyDoc
