import StrategyDoc.Proofs.Comparison
import StrategyDoc.Proofs.DeclaredPart
import StrategyDoc.Proofs.Locality
import StrategyDoc.Proofs.Separation

/-! # Strict policies

A strict policy adds diagnostics about undeclared members to those of the permissive one, and
does nothing else (`Validation.errors_strategy_withStrict`,
`Validation.errors_expression_withStrict`).  What it accepts is accepted under the permissive
policy and read in the same way (`DocumentRepresents.permissive`).

If a document is accepted under the permissive policy, the diagnostics that a strict policy
adds are about the members that are dropped when the strategy is written again
(`Reports.mem_iff_aboutDropped`).  `Json.Drops` says which members these are, by comparing the
values before and after.  `onlyStricter_ofJson?` puts both together. -/

namespace StrategyDoc

/-- The policy, strict or permissive. -/
def Policy.withStrict (policy : Policy) (strict : Bool) : Policy := { policy with strict := strict }

/-! ### Diagnostics under both policies -/

namespace Diagnostic

/-- The diagnostics that are not about undeclared members. -/
def expected (ds : List Diagnostic) : List Diagnostic :=
  ds.filter fun d => d.kind ≠ .unexpectedField

theorem congruence_expected : Congruence fun as bs => expected as = bs where
  nil := rfl
  append h h' := by
    rw [expected, List.filter_append, ← h, ← h']
    rfl
  under step h := by
    rw [expected, List.filter_map, ← h]
    rfl
  same d _ h := by
    rw [expected, List.filter_cons_of_pos (by simpa using h)]
    rfl

end Diagnostic

namespace Validation

open Finding

section strictness

variable (policy : Policy)

theorem expected_parts {visit visit' : Visitor}
    (hvisit : ∀ value, Diagnostic.expected (visit value).errors = (visit' value).errors) :
    RelatedParts (fun as bs => Diagnostic.expected as = bs) (policy.withStrict true)
      (policy.withStrict false) visit visit' where
  congruence := Diagnostic.congruence_expected
  visit := hvisit
  undeclared declared members := by
    show Diagnostic.expected _ = []
    rw [Diagnostic.expected, List.filter_eq_nil_iff]
    intro d hd
    simp [(unexpected_of_mem_undeclared d hd).2]

/-- **A strict policy adds diagnostics about undeclared members**, and no others. -/
theorem errors_expression_withStrict (budget : Nat) (value : Json) :
    Diagnostic.expected (expression (policy.withStrict true) budget value).errors
      = (expression (policy.withStrict false) budget value).errors := by
  induction budget generalizing value with
  | zero => rfl
  | succ budget ih =>
      have hparts := expected_parts policy ih
      exact related_node hparts (related_branch hparts rfl) value

theorem errors_strategy_withStrict (document : Json) :
    Diagnostic.expected (strategy (policy.withStrict true) document).errors
      = (strategy (policy.withStrict false) document).errors := by
  have hparts := expected_parts policy (errors_expression_withStrict policy (policy.maxDepth - 1))
  exact related_strategy hparts (related_branch hparts rfl) document

end strictness

end Validation

/-! ### What is accepted under a strict policy -/

section permissive

variable {strict : Bool}

theorem OnlyDeclared.permissive (declared : List String) (members : List (String × Json)) :
    OnlyDeclared false declared members := nofun

mutual

/-- What a value represents under a policy, it represents under a permissive one. -/
theorem Represents.permissive {value : Json} {e : Expression} :
    Represents strict value e → Represents false value e
  | .number => .number
  | .call hcontract hfunction hfields _ =>
      .call hcontract hfunction hfields.permissive (.permissive _ _)
  | .conditional hfunction hif hcondition hthen hthenBranch helse _ =>
      .conditional hfunction hif hcondition.permissive hthen hthenBranch.permissive
        helse.permissive (.permissive _ _)

theorem ItemsRepresent.permissive {items : List Json} {es : List Expression} :
    ItemsRepresent strict items es → ItemsRepresent false items es
  | .nil => .nil
  | .cons hitem hitems => .cons hitem.permissive hitems.permissive

theorem ElseRepresents.permissive {value : Option Json} {elseBranch : Option (List Expression)} :
    ElseRepresents strict value elseBranch → ElseRepresents false value elseBranch
  | .absent => .absent
  | .present hitems => .present hitems.permissive

theorem FieldRepresents.permissive {kind : FieldKind} {value : Json} {v : FieldValue} :
    FieldRepresents strict kind value v → FieldRepresents false kind value v
  | .expression h => .expression h.permissive
  | .sequence hlength hitems => .sequence hlength hitems.permissive
  | .choice h => .choice h
  | .text => .text
  | .identifier h => .identifier h
  | .shape hfields _ => .shape hfields.permissive (.permissive _ _)
  | .optional h => .optional h.permissive

theorem FieldsRepresent.permissive {specs : List FieldSpec} {members : List (String × Json)}
    {fields : List (String × FieldValue)} :
    FieldsRepresent strict specs members fields → FieldsRepresent false specs members fields
  | .nil => .nil
  | .skip habsent hoptional hfields => .skip habsent hoptional hfields.permissive
  | .take hpresent hvalue hfields => .take hpresent hvalue.permissive hfields.permissive

end

theorem DocumentRepresents.permissive {document : Json} {s : Strategy}
    (h : DocumentRepresents strict document s) : DocumentRepresents false document s := by
  cases h with
  | intro hname hauthor hstrategy hroot _ =>
      exact .intro hname hauthor hstrategy hroot.permissive (.permissive _ _)

end permissive

/-! ### What is dropped -/

namespace Json

/-- The value has a member at the path that is absent in what is written, where the object
around it is still there. -/
def Drops (value written : Json) (path : Path) (name : String) : Prop :=
  (∃ dropped, value.at? (path ++ [.field name]) = some dropped)
    ∧ written.at? (path ++ [.field name]) = none ∧ ∃ around, written.at? path = some around

section drops

variable {written item : Json} {items : List Json} {members : List (String × Json)}
  {specs : List FieldSpec} {path : Path} {name : String}

theorem not_drops_of_isScalar {value : Json} (h : value.IsScalar) :
    ¬ value.Drops written path name := by
  rintro ⟨⟨dropped, hdropped⟩, _⟩
  have hstep : ∀ step, value.step? step = none := by
    intro step
    cases value with
    | array => cases h
    | object => cases h
    | _ => rfl
  cases path <;> simp [at?_cons, hstep] at hdropped

theorem getElem?_declaredItems (items : List Json) (i : Nat) :
    (declaredItems items)[i]? = items[i]?.map (declared .expression) := by
  induction items generalizing i with
  | nil => rfl
  | cons item items ih =>
      rw [declaredItems]
      cases i with
      | zero => rfl
      | succ i => exact ih i

theorem drops_array_iff :
    (array items).Drops (array (declaredItems items)) path name
      ↔ ∃ i item rest, path = .index i :: rest ∧ items[i]? = some item
        ∧ item.Drops (item.declared .expression) rest name := by
  cases path with
  | nil => simp [Drops, at?_cons, step?]
  | cons step rest =>
      cases step with
      | field key => simp [Drops, at?_cons, step?]
      | index i =>
          cases hitem : items[i]? with
          | none => simp [Drops, at?_cons, step?, hitem]
          | some item => simp [Drops, at?_cons, step?, getElem?_declaredItems, hitem]

/-- A dropped member is undeclared in the object itself, or it is dropped in a declared member. -/
theorem drops_object_iff :
    (object members).Drops (object (declaredMembers specs members)) path name
      ↔ (path = [] ∧ name ∈ members.map (·.1) ∧ name ∉ specs.map (·.1))
        ∨ ∃ key value kind rest, path = .field key :: rest ∧ member? key members = some value
          ∧ FieldKind.find? key specs = some kind
          ∧ value.Drops (value.declared kind) rest name := by
  cases path with
  | nil =>
      cases hvalue : member? name members with
      | none =>
          have hname := member?_eq_none_iff.mp hvalue
          simp [Drops, at?_cons, step?, hvalue, hname]
      | some value =>
          have hname : name ∈ members.map (·.1) := List.mem_map_of_mem (mem_of_member? hvalue)
          rw [← FieldKind.find?_eq_none_iff]
          cases hkind : FieldKind.find? name specs with
          | none => simp [Drops, at?_cons, step?, hvalue, hkind, hname, member?_declaredMembers]
          | some kind => simp [Drops, at?_cons, step?, hvalue, hkind, member?_declaredMembers]
  | cons step rest =>
      cases step with
      | index i => simp [Drops, at?_cons, step?]
      | field key =>
          cases hvalue : member? key members with
          | none => simp [Drops, at?_cons, step?, hvalue]
          | some value =>
              cases hkind : FieldKind.find? key specs with
              | none => simp [Drops, at?_cons, step?, hvalue, hkind, member?_declaredMembers]
              | some kind => simp [Drops, at?_cons, step?, hvalue, hkind, member?_declaredMembers]

theorem declared_congr {kind kind' : FieldKind} (h : kind.bare = kind'.bare) (value : Json) :
    value.declared kind = value.declared kind' := by
  cases value <;> simp only [declared, h]

end drops

end Json

/-! ### The diagnostics of a strict policy -/

/-- The slot as a field with its kind. -/
def Slot.spec (slot : Slot) : FieldSpec := (slot.name, slot.kind)

section slots

variable {role : Role} {members : List (String × Json)} {slots : List Slot}

theorem Slot.map_fst_spec (slots : List Slot) :
    (slots.map spec).map (·.1) = slots.map (·.name) := by
  rw [List.map_map]
  rfl

theorem Slot.map_spec_ofSpec (specs : List FieldSpec) : (specs.map ofSpec).map spec = specs := by
  rw [List.map_map]
  exact List.map_id _

/-- The declared part of an object has the members that have a slot. -/
theorem Declares.declared_object (h : Declares role members slots) :
    (Json.object members).declared role.kind
      = .object (Json.declaredMembers (slots.map Slot.spec) members) := by
  cases h with
  | document => rfl
  | conditional hrole hfunction =>
      rw [hrole, Json.declared]
      show Json.object (Json.declaredMembers (Json.nodeSpecs members) members) = _
      rw [Json.nodeSpecs_conditional hfunction]
      rfl
  | call hcontract hfunction =>
      rw [Slot.map_spec_ofSpec]
      show Json.object (Json.declaredMembers (Json.nodeSpecs members) members) = _
      rw [Json.nodeSpecs_call hcontract hfunction]
  | shape =>
      rw [Slot.map_spec_ofSpec]
      rfl

/-- What is asked for in a slot is of its kind. -/
theorem Declares.bare_kind (h : Declares role members slots) {slot : Slot} (hslot : slot ∈ slots) :
    slot.role.kind.bare = slot.kind.bare := by
  rcases h.slot_cases hslot with ⟨rfl, hslot⟩ | hslot | ⟨spec, rfl⟩
  · simp only [documentSlots, List.mem_cons, List.not_mem_nil, or_false] at hslot
    rcases hslot with rfl | rfl | rfl <;> rfl
  · simp only [conditionalSlots, List.mem_cons, List.not_mem_nil, or_false] at hslot
    rcases hslot with rfl | rfl | rfl | rfl <;> rfl
  · exact FieldKind.bare_bare spec.2

theorem Slot.find?_spec (hnodup : (slots.map (·.name)).Nodup) {slot : Slot} (hslot : slot ∈ slots) :
    FieldKind.find? slot.name (slots.map spec) = some slot.kind := by
  rw [← map_fst_spec] at hnodup
  exact FieldKind.find?_eq_some_of_mem hnodup (List.mem_map_of_mem hslot)

end slots

namespace Diagnostic

/-- The diagnostic about an undeclared member of the object at the path. -/
def undeclaredAt (path : Path) (name : String) : Diagnostic :=
  ((Defect.unexpectedField name).diagnostic.under (.field name)).behind path

/-- The diagnostic is about a member of the value that is dropped in what is written. -/
def AboutDropped (value written : Json) (d : Diagnostic) : Prop :=
  ∃ path name, value.Drops written path name ∧ d = undeclaredAt path name

end Diagnostic

section parts

open Validation

variable {policy : Policy} {members : List (String × Json)} {slots : List Slot}
  {found : Slot → Json → List Diagnostic}

theorem mem_itemErrors_iff_aboutDropped {found : Json → List Diagnostic} {items : List Json}
    (h : ∀ (i : Nat) (item : Json), items[i]? = some item →
      ∀ e, e ∈ found item ↔ e.AboutDropped item (item.declared .expression)) (d : Diagnostic) :
    d ∈ itemErrors found items
      ↔ d.AboutDropped (.array items) (.array (Json.declaredItems items)) := by
  simp only [mem_itemErrors, Diagnostic.AboutDropped, Json.drops_array_iff]
  constructor
  · rintro ⟨i, item, hitem, e, he, rfl⟩
    obtain ⟨path, name, hdrops, rfl⟩ := (h i item hitem e).mp he
    exact ⟨.index i :: path, name, ⟨i, item, path, rfl, hitem, hdrops⟩, rfl⟩
  · rintro ⟨_, name, ⟨i, item, path, rfl, hitem, hdrops⟩, rfl⟩
    have herror : Diagnostic.undeclaredAt path name ∈ found item :=
      (h i item hitem _).mpr ⟨path, name, hdrops, rfl⟩
    exact ⟨i, item, hitem, _, herror, rfl⟩

/-- The diagnostics of an object are about what it drops if those of its members are about what
these drop, no required member is absent and the undeclared members are reported. -/
theorem mem_fieldErrors_iff_aboutDropped (hstrict : policy.strict = true)
    (hnodup : (slots.map (·.name)).Nodup)
    (hpresent : ∀ slot ∈ slots, slot.kind.isRequired = true →
      Json.member? slot.name members ≠ none)
    (h : ∀ slot ∈ slots, ∀ value, Json.member? slot.name members = some value →
      ∀ e, e ∈ found slot value ↔ e.AboutDropped value (value.declared slot.kind))
    (d : Diagnostic) :
    d ∈ slots.flatMap (slotErrors found members)
        ++ undeclared policy (slots.map (·.name)) members
      ↔ d.AboutDropped (.object members)
        (.object (Json.declaredMembers (slots.map Slot.spec) members)) := by
  simp only [Diagnostic.AboutDropped, Json.drops_object_iff, Slot.map_fst_spec]
  constructor
  · intro hd
    rcases List.mem_append.mp hd with hd | hd
    · obtain ⟨slot, hslot, hd⟩ := List.mem_flatMap.mp hd
      rcases mem_slotErrors.mp hd with ⟨value, hvalue, e, he, rfl⟩ | ⟨habsent, hrequired, _⟩
      · obtain ⟨path, name, hdrops, rfl⟩ := (h slot hslot value hvalue e).mp he
        have hfind := Slot.find?_spec hnodup hslot
        exact ⟨.field slot.name :: path, name,
          .inr ⟨slot.name, value, slot.kind, path, rfl, hvalue, hfind, hdrops⟩, rfl⟩
      · exact absurd habsent (hpresent slot hslot hrequired)
    · obtain ⟨_, name, hname, hundeclared, rfl⟩ := mem_undeclared.mp hd
      exact ⟨[], name, .inl ⟨rfl, hname, hundeclared⟩, rfl⟩
  · rintro ⟨_, name, ⟨rfl, hname, hundeclared⟩
      | ⟨key, value, kind, path, rfl, hvalue, hfind, hdrops⟩, rfl⟩
    · refine List.mem_append_right _ (mem_undeclared.mpr ?_)
      exact ⟨hstrict, name, hname, hundeclared, rfl⟩
    · obtain ⟨slot, hslot, hspec⟩ := List.mem_map.mp (FieldKind.mem_of_find? hfind)
      cases hspec
      have herror : Diagnostic.undeclaredAt path name ∈ found slot value :=
        (h slot hslot value hvalue _).mpr ⟨path, name, hdrops, rfl⟩
      refine List.mem_append_left _ (List.mem_flatMap.mpr ⟨slot, hslot, ?_⟩)
      exact mem_slotErrors.mpr (.inl ⟨value, hvalue, _, herror, rfl⟩)

end parts

section reports

open Validation

variable {policy : Policy} {place : Place} {d : Diagnostic} {ds : List Diagnostic}

theorem Misfit.kind_ne_unexpectedField (h : Misfit policy place d) :
    d.kind ≠ .unexpectedField := by
  cases h <;> simp [Defect.diagnostic, Diagnostic.under, Defect.kind]

/-- **Undeclared members are the dropped ones.**  If all diagnostics are about undeclared
members, they are about those that the declared part has dropped. -/
theorem Reports.mem_iff_aboutDropped (hstrict : policy.strict = true)
    (h : Reports policy place ds) : (∀ d ∈ ds, d.kind = .unexpectedField) →
      ∀ d, d ∈ ds ↔ d.AboutDropped place.value (place.value.declared place.role.kind) := by
  induction h with
  | nothing h =>
      intro _ d
      constructor
      · exact nofun
      · rintro ⟨path, name, hdrops, _⟩
        exact absurd hdrops (Json.not_drops_of_isScalar h)
  | misfit h =>
      intro hunexpected
      exact absurd (hunexpected _ List.mem_cons_self) h.kind_ne_unexpectedField
  | @items level role length items found hrole _ ih =>
      intro hunexpected
      have hdeclared : (Json.array items).declared role.kind
          = .array (Json.declaredItems items) := by
        rw [hrole]
        rfl
      rw [hdeclared]
      refine mem_itemErrors_iff_aboutDropped fun i item hitem => ?_
      refine ih item (List.mem_of_getElem? hitem) fun e he => ?_
      have herror : e.under (.index i) ∈ itemErrors found items :=
        mem_itemErrors.mpr ⟨i, item, hitem, e, he, rfl⟩
      exact hunexpected (e.under (.index i)) herror
  | @fields level role members slots found hslots hnodup _ ih =>
      intro hunexpected
      have hslotErrors : ∀ slot ∈ slots, ∀ e ∈ slotErrors found members slot,
          e.kind = .unexpectedField := by
        intro slot hslot e he
        exact hunexpected e (List.mem_append_left _ (List.mem_flatMap.mpr ⟨slot, hslot, he⟩))
      rw [hslots.declared_object]
      refine mem_fieldErrors_iff_aboutDropped hstrict hnodup
        (fun slot hslot hrequired habsent => ?_) fun slot hslot value hvalue => ?_
      · have hmissing := hslotErrors slot hslot _
          (mem_slotErrors.mpr (.inr ⟨habsent, hrequired, rfl⟩))
        cases hmissing
      · rw [← Json.declared_congr (hslots.bare_kind hslot)]
        refine ih slot hslot value hvalue fun e he => ?_
        have herror : e.under (.field slot.name) ∈ slotErrors found members slot :=
          mem_slotErrors.mpr (.inl ⟨value, hvalue, e, he, rfl⟩)
        exact hslotErrors slot hslot (e.under (.field slot.name)) herror

end reports

/-! ### Strict and permissive readings -/

/-- What a strict reading of a document has beyond a permissive one, if what is read is written
as a value again. -/
structure OnlyStricter {α : Type} (write : α → Json) (document : Json)
    (strict permissive : Except (List Diagnostic) α) : Prop where
  expected_eq : Diagnostic.expected (Diagnostic.ofResult strict) = Diagnostic.ofResult permissive
  ne_unexpected : ∀ d ∈ Diagnostic.ofResult permissive, d.kind ≠ .unexpectedField
  /-- There is one diagnostic for each member that is dropped, at its path. -/
  dropped : document.Sorted → ∀ a, permissive = .ok a →
    ((Diagnostic.ofResult strict).map (·.path)).Nodup
      ∧ ∀ d, d ∈ Diagnostic.ofResult strict ↔ d.AboutDropped document (write a)
  accepted : document.Sorted → ∀ a, permissive = .ok a →
    (∀ path name, ¬ document.Drops (write a) path name) → strict = .ok a

section readings

open Finding

variable {policy : Policy} {place : Place} {α : Type} {write : α → Json}
  {strict permissive : Finding α}

theorem Reports.nodup_paths {ds : List Diagnostic} (h : Reports policy place ds)
    (hsorted : place.value.Sorted) : (ds.map (·.path)).Nodup := by
  refine List.pairwise_map.mpr ((h.incomparable hsorted).imp fun hincomparable heq => ?_)
  exact hincomparable.1 (heq ▸ List.prefix_rfl)

theorem onlyStricter_of_reports (hpolicy : policy.strict = true)
    (hexpected : Diagnostic.expected strict.errors = permissive.errors)
    (hreports : Reports policy place strict.errors) (hcoherent : Coherent policy.strict strict)
    (hwrite : place.value.Sorted → ∀ a, permissive.result = .ok a →
      write a = place.value.declared place.role.kind)
    (hsame : ∀ a b, permissive.result = .ok a → strict.result = .ok b → b = a) :
    OnlyStricter write place.value strict.result permissive.result := by
  have hkinds : ∀ a, permissive.result = .ok a →
      ∀ d ∈ strict.errors, d.kind = .unexpectedField := by
    intro a ha d hd
    have hnil : Diagnostic.expected strict.errors = [] := by
      rw [hexpected, ← ofResult_result, ha, Diagnostic.ofResult]
    simpa using List.filter_eq_nil_iff.mp hnil d hd
  have hdropped : place.value.Sorted → ∀ a, permissive.result = .ok a →
      ∀ d, d ∈ strict.errors ↔ d.AboutDropped place.value (write a) := by
    intro hsorted a ha
    rw [hwrite hsorted a ha]
    exact hreports.mem_iff_aboutDropped hpolicy (hkinds a ha)
  refine ⟨?_, ?_, ?_, ?_⟩
  · rw [ofResult_result, ofResult_result]
    exact hexpected
  · rw [ofResult_result, ← hexpected]
    intro d hd
    simpa using (List.mem_filter.mp hd).2
  · intro hsorted a ha
    rw [ofResult_result]
    exact ⟨hreports.nodup_paths hsorted, hdropped hsorted a ha⟩
  · intro hsorted a ha hnone
    have hnil : strict.errors = [] := by
      refine List.eq_nil_iff_forall_not_mem.mpr fun d hd => ?_
      obtain ⟨path, name, hdrops, _⟩ := (hdropped hsorted a ha d).mp hd
      exact hnone path name hdrops
    obtain ⟨b, hb⟩ := hcoherent.exists_result_eq_ok_iff.mpr hnil
    rw [hb, hsame a b ha hb]

end readings

open Validation in
/-- **Strict policies only add diagnostics about undeclared members.**  The others are those of
the permissive policy.  If that accepts a document, there is one for each member that is
dropped when what was read is written again, and without such a member the strict policy
accepts the document with the same outcome. -/
theorem onlyStricter_ofJson? (policy : Policy) (document : Json) :
    OnlyStricter (fun s : Strategy => s.toJson.sort) document
        (Strategy.ofJson? (policy.withStrict true) document)
        (Strategy.ofJson? (policy.withStrict false) document)
      ∧ OnlyStricter (fun e : Expression => e.toJson.sort) document
        (Expression.ofJson? (policy.withStrict true) document)
        (Expression.ofJson? (policy.withStrict false) document) := by
  constructor
  · have hreports := reports_ofJson?_strategy (policy.withStrict true) document
    rw [Strategy.ofJson?, Finding.ofResult_result] at hreports
    refine onlyStricter_of_reports rfl (errors_strategy_withStrict policy document) hreports
      (coherent_strategy document) (fun hsorted s hs => ?_) fun s s' hs hs' => ?_
    · have hdocument := (Strategy.ofJson?_eq_ok_iff.mp hs).1
      exact hdocument.sort_toJson hsorted
    · have hdocument := (Strategy.ofJson?_eq_ok_iff.mp hs).1
      have hdocument' := (Strategy.ofJson?_eq_ok_iff.mp hs').1
      exact hdocument'.permissive.unique hdocument
  · have hreports := reports_ofJson?_expression (policy.withStrict true) document
    rw [Expression.ofJson?, Finding.ofResult_result] at hreports
    refine onlyStricter_of_reports rfl (errors_expression_withStrict policy _ document) hreports
      (coherent_expression _ document) (fun hsorted e he => ?_) fun e e' he he' => ?_
    · have hvalue := (Expression.ofJson?_eq_ok_iff.mp he).1
      exact hvalue.sort_toJson hsorted
    · have hvalue := (Expression.ofJson?_eq_ok_iff.mp he).1
      have hvalue' := (Expression.ofJson?_eq_ok_iff.mp he').1
      exact hvalue'.permissive.unique hvalue

/-- The notes are what a strict policy finds in the annotated document. -/
theorem Json.onlyStricter_annotated :
    Json.annotated.Sorted
      ∧ Strategy.ofJson? ⟨false, 2, true⟩ Json.annotated
        = .ok ⟨"idle", "nobody", ⟨.number (.integer 1), [], none⟩⟩
      ∧ (Diagnostic.ofResult (Strategy.ofJson? ⟨true, 2, true⟩ Json.annotated)).map (·.path)
        = [[.field "strategy", .field "note"], [.field "note"]]
      ∧ ∀ d, d ∈ Diagnostic.ofResult (Strategy.ofJson? ⟨true, 2, true⟩ Json.annotated)
        ↔ d.AboutDropped Json.annotated
          (Strategy.mk "idle" "nobody" ⟨.number (.integer 1), [], none⟩).toJson.sort := by
  have hread : Strategy.ofJson? ⟨false, 2, true⟩ Json.annotated
      = .ok ⟨"idle", "nobody", ⟨.number (.integer 1), [], none⟩⟩ := rfl
  obtain ⟨honly, _⟩ := onlyStricter_ofJson? ⟨true, 2, true⟩ Json.annotated
  exact ⟨sorted_annotated, hread, rfl, (honly.dropped sorted_annotated _ hread).2⟩

end StrategyDoc
