import StrategyDoc.Proofs.DeclaredPart
import StrategyDoc.Proofs.Places
import StrategyDoc.Proofs.Replacement

/-! # Undeclared members

Values are `Alike` if they differ at most in undeclared members of the objects that the walk
visits: such members may be absent, present, or have any value, at any number of places.  A
permissive policy does not look at them, so the visits find the same in values that are alike
(`Alike.sameFound`), and documents that are alike are read, or refused, in the same way
(`Strategy.ofJson?_eq_of_alike`).

Whatever is done to the undeclared members of one visited object, the document stays alike
(`Place.Leads.alike`). -/

namespace StrategyDoc

/-- The values are the same but for undeclared members of the objects that the walk visits. -/
inductive Alike : Role → Json → Json → Prop
  | same {role : Role} {value : Json} : Alike role value value
  | items {role : Role} {length : Option Nat} {items items' : List Json}
      (hrole : role.kind = .sequence length) (hlength : items.length = items'.length)
      (h : ∀ (i : Nat) (item item' : Json), items[i]? = some item → items'[i]? = some item' →
        Alike (.field .expression) item item') :
      Alike role (.array items) (.array items')
  | fields {role : Role} {members members' : List (String × Json)} {slots : List Slot}
      (hslots : Declares role members slots)
      (habsent : ∀ slot ∈ slots,
        Json.member? slot.name members = none ↔ Json.member? slot.name members' = none)
      (h : ∀ slot ∈ slots, ∀ value value', Json.member? slot.name members = some value →
        Json.member? slot.name members' = some value' → Alike slot.role value value') :
      Alike role (.object members) (.object members')

/-! ### Visits to values that are alike -/

namespace Validation

open Finding

section visits

variable {policy : Policy} {visit : Visitor} {members members' : List (String × Json)}

theorem undeclared_of_permissive (hpermissive : policy.strict = false) (declared : List String) :
    undeclared policy declared members = [] := by
  rw [undeclared_eq_nil_iff, hpermissive]
  exact nofun

theorem member?_cases {name : String}
    (habsent : Json.member? name members = none ↔ Json.member? name members' = none) :
    Json.member? name members = none ∧ Json.member? name members' = none
      ∨ ∃ value value', Json.member? name members = some value
        ∧ Json.member? name members' = some value' := by
  cases hvalue : Json.member? name members with
  | none => exact .inl ⟨rfl, habsent.mp hvalue⟩
  | some value =>
      obtain ⟨value', hvalue'⟩ := Option.ne_none_iff_exists'.mp fun hnone => by
        rw [habsent.mpr hnone] at hvalue
        cases hvalue
      exact .inr ⟨value, value', rfl, hvalue'⟩

theorem member_congr {α : Type} {name : String} {absent : Finding α}
    {visit visit' : Json → Finding α}
    (habsent : Json.member? name members = none ↔ Json.member? name members' = none)
    (h : ∀ value value', Json.member? name members = some value →
      Json.member? name members' = some value' → visit value = visit' value') :
    member name members absent visit = member name members' absent visit' := by
  unfold member
  rcases member?_cases habsent with ⟨hvalue, hvalue'⟩ | ⟨value, value', hvalue, hvalue'⟩
  · rw [hvalue, hvalue']
  · rw [hvalue, hvalue']
    dsimp only
    rw [h value value' hvalue hvalue']

theorem fieldValues_congr_of_found {specs : List FieldSpec}
    (habsent : ∀ spec ∈ specs,
      Json.member? spec.1 members = none ↔ Json.member? spec.1 members' = none)
    (h : ∀ spec ∈ specs, ∀ value value', Json.member? spec.1 members = some value →
      Json.member? spec.1 members' = some value' →
      fieldValue policy visit spec.2 value = fieldValue policy visit spec.2 value') :
    fieldValues policy visit specs members = fieldValues policy visit specs members' := by
  induction specs with
  | nil => rw [fieldValues, fieldValues]
  | cons spec specs ih =>
      obtain ⟨name, kind⟩ := spec
      obtain ⟨hname, habsent⟩ := List.forall_mem_cons.mp habsent
      obtain ⟨hkind, h⟩ := List.forall_mem_cons.mp h
      rw [fieldValues, fieldValues, ih habsent h]
      rcases member?_cases hname with ⟨hvalue, hvalue'⟩ | ⟨value, value', hvalue, hvalue'⟩
      · rw [hvalue, hvalue']
      · rw [hvalue, hvalue']
        dsimp only
        rw [show fieldValue policy visit kind value = _ from hkind _ _ hvalue hvalue']

theorem expressions_congr {items items' : List Json} (hlength : items.length = items'.length)
    (h : ∀ (i : Nat) (item item' : Json), items[i]? = some item → items'[i]? = some item' →
      visit item = visit item') :
    expressions visit items = expressions visit items' := by
  unfold expressions
  refine congrArg gather (List.ext_getElem (by simpa using hlength) fun i hi hi' => ?_)
  rw [List.getElem_mapIdx, List.getElem_mapIdx]
  rw [h i _ _ (List.getElem?_eq_getElem _) (List.getElem?_eq_getElem _)]

end visits

/-- The visit for what is asked for finds the same in both values. -/
def SameFound (policy : Policy) (budget : Nat) : Role → Json → Json → Prop
  | .document, value, value' => strategy policy value = strategy policy value'
  | .root, value, value' => root policy value = root policy value'
  | .branch, value, value' =>
    branch policy (expression policy budget) value
      = branch policy (expression policy budget) value'
  | .field .expression, value, value' =>
    expression policy budget value = expression policy budget value'
  | .field kind, value, value' =>
    fieldValue policy (expression policy budget) kind value
      = fieldValue policy (expression policy budget) kind value'

/-- The same slots are taken in both objects, and the same is found in them. -/
structure SameSlots (policy : Policy) (budget : Nat) (slots : List Slot)
    (members members' : List (String × Json)) : Prop where
  absent : ∀ slot ∈ slots,
    Json.member? slot.name members = none ↔ Json.member? slot.name members' = none
  found : ∀ slot ∈ slots, ∀ value value', Json.member? slot.name members = some value →
    Json.member? slot.name members' = some value' → SameFound policy budget slot.role value value'
  /-- Markers, names and authors are the same. -/
  text : ∀ slot ∈ slots, slot.role = .field .text →
    Json.member? slot.name members' = Json.member? slot.name members

section found

variable {policy : Policy} {budget : Nat} {members members' : List (String × Json)}

theorem SameFound.fieldValue_eq {kind : FieldKind} {value value' : Json}
    (h : SameFound policy budget (.field kind.bare) value value') :
    fieldValue policy (expression policy budget) kind value
      = fieldValue policy (expression policy budget) kind value' := by
  rw [← fieldValue_bare kind value, ← fieldValue_bare kind value']
  cases hkind : kind.bare with
  | expression =>
      rw [hkind] at h
      rw [fieldValue_expression, fieldValue_expression]
      exact congrArg (map FieldValue.expression) h
  | _ =>
      rw [hkind] at h
      exact h

namespace SameSlots

theorem member_eq {slots : List Slot} (h : SameSlots policy budget slots members members')
    {slot : Slot} (hslot : slot ∈ slots) {α : Type} {absent : Finding α} {visit : Json → Finding α}
    (hvisit : ∀ value value', SameFound policy budget slot.role value value' →
      visit value = visit value') :
    member slot.name members absent visit = member slot.name members' absent visit :=
  member_congr (h.absent slot hslot) fun value value' hvalue hvalue' =>
    hvisit value value' (h.found slot hslot value value' hvalue hvalue')

theorem fieldValues_eq {specs : List FieldSpec}
    (h : SameSlots policy budget (specs.map Slot.ofSpec) members members') :
    fieldValues policy (expression policy budget) specs members
      = fieldValues policy (expression policy budget) specs members' := by
  have habsent := List.forall_mem_map.mp h.absent
  have hfound := List.forall_mem_map.mp h.found
  exact fieldValues_congr_of_found habsent fun spec hspec value value' hvalue hvalue' =>
    (hfound spec hspec value value' hvalue hvalue').fieldValue_eq

theorem conditional_eq (hpermissive : policy.strict = false)
    (h : SameSlots policy budget conditionalSlots members members') :
    conditional policy (expression policy budget) members
      = conditional policy (expression policy budget) members' := by
  have hif : member "if" members (missing "if") (expression policy budget)
      = member "if" members' (missing "if") (expression policy budget) :=
    h.member_eq (List.mem_of_getElem? (i := 1) rfl) fun _ _ h => h
  have hthen : member "then" members (missing "then") (branch policy (expression policy budget))
      = member "then" members' (missing "then") (branch policy (expression policy budget)) :=
    h.member_eq (List.mem_of_getElem? (i := 2) rfl) fun _ _ h => h
  have helse : member "else" members (accept none)
        (fun value => (branch policy (expression policy budget) value).map some)
      = member "else" members' (accept none)
        (fun value => (branch policy (expression policy budget) value).map some) :=
    h.member_eq (List.mem_of_getElem? (i := 3) rfl) fun _ _ h => congrArg (map some) h
  unfold conditional
  dsimp only
  rw [hif, hthen, helse, undeclared_of_permissive hpermissive,
    undeclared_of_permissive hpermissive]

theorem call_eq (hpermissive : policy.strict = false) {contract : Contract}
    (h : SameSlots policy budget ((Json.callSpecs contract).map Slot.ofSpec) members members') :
    call policy (expression policy budget) contract members
      = call policy (expression policy budget) contract members' := by
  have hfields : SameSlots policy budget (contract.fields.map Slot.ofSpec) members members' :=
    ⟨fun slot hslot => h.absent slot (.tail _ hslot),
      fun slot hslot => h.found slot (.tail _ hslot),
      fun slot hslot => h.text slot (.tail _ hslot)⟩
  unfold call
  rw [hfields.fieldValues_eq, undeclared_of_permissive hpermissive,
    undeclared_of_permissive hpermissive]

theorem strategy_eq (hpermissive : policy.strict = false)
    (h : SameSlots policy budget documentSlots members members') :
    strategy policy (.object members) = strategy policy (.object members') := by
  have hname : Json.member? "name" members' = Json.member? "name" members :=
    h.text ⟨"name", .text, .field .text⟩ (List.mem_of_getElem? (i := 0) rfl) rfl
  have hauthor : Json.member? "author" members' = Json.member? "author" members :=
    h.text ⟨"author", .text, .field .text⟩ (List.mem_of_getElem? (i := 1) rfl) rfl
  have hroot : member "strategy" members (missing "strategy") (root policy)
      = member "strategy" members' (missing "strategy") (root policy) :=
    h.member_eq (List.mem_of_getElem? (i := 2) rfl) fun _ _ h => h
  unfold strategy
  dsimp only
  rw [hroot, undeclared_of_permissive hpermissive, undeclared_of_permissive hpermissive]
  unfold member
  rw [hname, hauthor]

end SameSlots

end found

end Validation

/-! ### Values that are alike are read alike -/

namespace Alike

open Validation Finding

theorem eq_of_text {value value' : Json} (h : Alike (.field .text) value value') :
    value = value' := by
  generalize hrole : Role.field FieldKind.text = role at h
  cases h with
  | same => rfl
  | items hkind =>
      rw [← hrole] at hkind
      cases hkind
  | fields hslots => exact absurd hrole.symm hslots.role_ne_text

theorem member?_eq_of_text {slot : Slot} {members members' : List (String × Json)}
    (habsent : Json.member? slot.name members = none ↔ Json.member? slot.name members' = none)
    (h : ∀ value value', Json.member? slot.name members = some value →
      Json.member? slot.name members' = some value' → Alike slot.role value value')
    (htext : slot.role = .field .text) :
    Json.member? slot.name members' = Json.member? slot.name members := by
  rcases member?_cases habsent with ⟨hvalue, hvalue'⟩ | ⟨value, value', hvalue, hvalue'⟩
  · rw [hvalue, hvalue']
  · have halike : Alike (.field .text) value value' := htext ▸ h value value' hvalue hvalue'
    rw [hvalue, hvalue', halike.eq_of_text]

section permissive

variable {policy : Policy} {role : Role} {value value' : Json}

theorem sameFound_items {length : Option Nat} {items items' : List Json}
    (hrole : role.kind = .sequence length) (hlength : items.length = items'.length) {budget : Nat}
    (h : expressions (expression policy budget) items
      = expressions (expression policy budget) items') :
    SameFound policy budget role (.array items) (.array items') := by
  cases role with
  | document => cases hrole
  | root => cases hrole
  | branch =>
      show branch policy _ _ = branch policy _ _
      have hnil : items = [] ↔ items' = [] := by
        rw [← List.length_eq_zero_iff, ← List.length_eq_zero_iff, hlength]
      rcases branch_cases policy items with hallowed | ⟨hempty, hforbidden⟩
      · rw [branch_array_of_allowed hallowed, h,
          branch_array_of_allowed fun hforbidden hempty => hallowed hforbidden (hnil.mpr hempty)]
      · rw [branch_array_of_forbidden hempty hforbidden,
          branch_array_of_forbidden (hnil.mp hempty) hforbidden]
  | field kind =>
      change kind = .sequence length at hrole
      subst hrole
      show fieldValue policy _ _ _ = fieldValue policy _ _ _
      rcases length_cases length items with hfits | ⟨expected, rfl, hne⟩
      · have hfits' : ∀ expected, length = some expected → items'.length = expected :=
          fun expected hexpected => hlength ▸ hfits expected hexpected
        rw [fieldValue_sequence hfits, fieldValue_sequence hfits', h]
      · have hne' : items'.length ≠ expected := hlength ▸ hne
        rw [fieldValue_sequence_of_length_ne hne, fieldValue_sequence_of_length_ne hne', hlength]

theorem sameFound_fields (hpermissive : policy.strict = false)
    {members members' : List (String × Json)} {slots : List Slot}
    (hslots : Declares role members slots)
    (h : ∀ budget, SameSlots policy budget slots members members') (budget : Nat) :
    SameFound policy budget role (.object members) (.object members') := by
  cases hslots with
  | document => exact (h budget).strategy_eq hpermissive
  | conditional hkind hfunction =>
      have hfunction' : Json.member? "function" members' = some (.string conditionalWord) := by
        rw [← hfunction]
        exact (h 0).text ⟨"function", .text, .field .text⟩ (List.mem_of_getElem? (i := 0) rfl) rfl
      cases role with
      | document => cases hkind
      | branch => cases hkind
      | root =>
          show root policy _ = root policy _
          rw [root_conditional hfunction, root_conditional hfunction',
            (h _).conditional_eq hpermissive]
      | field kind =>
          change kind = .expression at hkind
          subst hkind
          cases budget with
          | zero => rfl
          | succ budget =>
              show object policy _ _ = object policy _ _
              rw [object_conditional hfunction, object_conditional hfunction',
                (h budget).conditional_eq hpermissive]
  | @call _ contract hcontract hfunction =>
      have hfunction' : Json.member? "function" members' = some (.string contract.name) := by
        rw [← hfunction]
        exact (h 0).text (Slot.ofSpec ("function", .text)) (.head _) rfl
      cases budget with
      | zero => rfl
      | succ budget =>
          show object policy _ _ = object policy _ _
          rw [object_call hcontract hfunction, object_call hcontract hfunction',
            (h budget).call_eq hpermissive]
  | @shape _ specs =>
      show fieldValue policy _ _ _ = fieldValue policy _ _ _
      rw [fieldValue_shape, fieldValue_shape, (h budget).fieldValues_eq,
        undeclared_of_permissive hpermissive, undeclared_of_permissive hpermissive]

/-- A permissive policy finds the same in values that are alike, whatever the budget. -/
theorem sameFound (hpermissive : policy.strict = false) (h : Alike role value value') :
    ∀ budget, SameFound policy budget role value value' := by
  induction h with
  | same =>
      intro budget
      unfold SameFound
      split <;> rfl
  | items hrole hlength _ ih =>
      intro budget
      refine sameFound_items hrole hlength (expressions_congr hlength ?_)
      exact fun i item item' hitem hitem' => ih i item item' hitem hitem' budget
  | fields hslots habsent h ih =>
      refine sameFound_fields hpermissive hslots fun budget => ⟨habsent, ?_, ?_⟩
      · exact fun slot hslot value value' hvalue hvalue' =>
          ih slot hslot value value' hvalue hvalue' budget
      · exact fun slot hslot => member?_eq_of_text (habsent slot hslot) (h slot hslot)

theorem ofJson?_eq {document document' : Json} (hpermissive : policy.strict = false)
    (h : Alike .document document document') :
    Strategy.ofJson? policy document' = Strategy.ofJson? policy document := by
  have hfound : Validation.strategy policy document = Validation.strategy policy document' :=
    h.sameFound hpermissive 0
  rw [Strategy.ofJson?, Strategy.ofJson?, hfound]

end permissive

end Alike

/-! ### Another object in the place of one -/

section edits

variable {start target : Place} {path : Path}

/-- A value that is like the one at a path can be put in its place. -/
theorem Place.Leads.alike {value : Json} (h : start.Leads path target)
    (hstart : start.role.InCatalog) (htarget : target.role ≠ .field .text)
    (hvalue : Alike target.role target.value value) :
    Alike start.role start.value (start.value.replaceAt path value) := by
  induction h with
  | here =>
      rw [Json.replaceAt]
      exact hvalue
  | @item level i role length items item path target hrole hitem _ ih =>
      rw [Json.replaceAt]
      refine .items hrole (List.length_modify ..).symm fun j old new hold hnew => ?_
      rw [List.getElem?_modify, hold, Option.map_eq_map, Option.map_some] at hnew
      cases Option.some.inj hnew
      by_cases hj : i = j
      · cases hj
        cases hitem.symm.trans hold
        rw [if_pos rfl]
        exact ih (.of_shapes_eq_nil rfl) htarget hvalue
      · rw [if_neg hj]
        exact .same
  | @field level role members slots slot old path target hslots hslot hmember _ ih =>
      have hnodup := hslots.nodup_names hstart
      rw [Json.replaceAt]
      refine .fields hslots (fun other _ => ?_) fun other hother value value' hfound hfound' => ?_
      · by_cases hname : other.name = slot.name
        · rw [hname, Json.member?_modifyMember, Option.map_eq_none_iff]
        · rw [Json.member?_modifyMember_of_ne hname]
      · by_cases hname : other.name = slot.name
        · obtain rfl := List.inj_on_of_nodup_map hnodup hother hslot hname
          cases hmember.symm.trans hfound
          rw [Json.member?_modifyMember, hmember] at hfound'
          cases hfound'
          exact ih (hslots.inCatalog hstart hother) htarget hvalue
        · rw [Json.member?_modifyMember_of_ne hname, hfound] at hfound'
          cases hfound'
          exact .same
  | marker _ h =>
      obtain ⟨_, rfl⟩ := h.eq_of_text rfl
      exact absurd rfl htarget

/-- A visited object with the same under its declared names, and whatever else besides. -/
theorem Place.Leads.alike_object {document : Json} {level : Nat} {role : Role}
    {members members' : List (String × Json)} {slots : List Slot}
    (h : Place.Leads ⟨1, .document, document⟩ path ⟨level, role, .object members⟩)
    (hslots : Declares role members slots)
    (hsame : ∀ slot ∈ slots, Json.member? slot.name members' = Json.member? slot.name members) :
    Alike .document document (document.replaceAt path (.object members')) := by
  refine h.alike (.inl rfl) hslots.role_ne_text (.fields hslots (fun slot hslot => ?_) ?_)
  · rw [hsame slot hslot]
  · intro slot hslot value value' hvalue hvalue'
    rw [hsame slot hslot, hvalue] at hvalue'
    cases hvalue'
    exact .same

end edits

/-- **Undeclared content does not influence anything** under a permissive policy: documents
that are alike are read as the same strategy, or refused with the same diagnostics.  In
particular this is so if a visited object is replaced by one with the same under its declared
names. -/
theorem Strategy.ofJson?_eq_of_alike {policy : Policy} (hpermissive : policy.strict = false)
    (document : Json) :
    (∀ document', Alike .document document document' →
      Strategy.ofJson? policy document' = Strategy.ofJson? policy document)
    ∧ ∀ path level role members slots,
      Place.Leads ⟨1, .document, document⟩ path ⟨level, role, .object members⟩ →
      Declares role members slots → ∀ members',
      (∀ slot ∈ slots, Json.member? slot.name members' = Json.member? slot.name members) →
      Strategy.ofJson? policy (document.replaceAt path (.object members'))
        = Strategy.ofJson? policy document := by
  refine ⟨fun document' halike => halike.ofJson?_eq hpermissive,
    fun path level role members slots hleads hslots members' hsame => ?_⟩
  exact (hleads.alike_object hslots hsame).ofJson?_eq hpermissive

/-- The annotated document has no actions, whatever is noted instead of its notes. -/
theorem Strategy.ofJson?_annotated :
    (Policy.mk false 2 false).strict = false
      ∧ Strategy.ofJson? ⟨false, 2, false⟩ (Json.annotated.replaceAt [.field "strategy"]
          (.object [("args", .array [.null]), ("function", .string conditionalWord),
            ("if", .number (.integer 1)), ("name", .null), ("then", .array [])]))
        = Strategy.ofJson? ⟨false, 2, false⟩ Json.annotated
      ∧ (Diagnostic.ofResult (Strategy.ofJson? ⟨false, 2, false⟩ Json.annotated)).map (·.path)
        = [[.field "strategy", .field "then"]] := by
  have hpermissive : (Policy.mk false 2 false).strict = false := rfl
  obtain ⟨_, hread⟩ := ofJson?_eq_of_alike hpermissive Json.annotated
  have hleads : Place.Leads ⟨1, .document, Json.annotated⟩ [.field "strategy"] _ :=
    .field .document (List.mem_of_getElem? (i := 2) rfl) rfl .here
  refine ⟨hpermissive, hread _ _ _ _ _ hleads (.conditional rfl rfl) _ ?_, rfl⟩
  simp only [conditionalSlots, List.forall_mem_cons]
  exact ⟨rfl, rfl, rfl, rfl, List.forall_mem_nil _⟩

end StrategyDoc
