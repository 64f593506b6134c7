import StrategyDoc.Proofs.Locality
import StrategyDoc.Proofs.Walk

/-! # Diagnostics and what they are about

Every diagnostic tells the truth about the document at its path
(`Diagnostic.justified_of_mem_ofResult`): the path leads to a value, or to the place of an
absent member, and there is the defect that the kind of the diagnostic stands for
(`Diagnostic.Justified`).

What is asked for at a path is told by its steps alone (`Place.Leads`).  In the rules of the
walk, a diagnostic starts at the place where it is made (`Reported`), and the steps put in
front of it on the way up are those that lead down to this place (`Reports.exists_leads`). -/

namespace StrategyDoc

/-! ### Places along a path -/

/-- The steps of the path lead from one place to the other. -/
inductive Place.Leads : Place → Path → Place → Prop
  | here {place : Place} : Leads place [] place
  | item {level i : Nat} {role : Role} {length : Option Nat} {items : List Json} {item : Json}
      {path : Path} {target : Place} (hrole : role.kind = .sequence length)
      (hitem : items[i]? = some item) (h : Leads ⟨level, .field .expression, item⟩ path target) :
      Leads ⟨level, role, .array items⟩ (.index i :: path) target
  | field {level : Nat} {role : Role} {members : List (String × Json)} {slots : List Slot}
      {slot : Slot} {value : Json} {path : Path} {target : Place}
      (hslots : Declares role members slots) (hslot : slot ∈ slots)
      (hmember : Json.member? slot.name members = some value)
      (h : Leads ⟨level + role.levels, slot.role, value⟩ path target) :
      Leads ⟨level, role, .object members⟩ (.field slot.name :: path) target
  /-- An expression has a marker even if it does not say what else it has. -/
  | marker {level : Nat} {members : List (String × Json)} {value : Json} {path : Path}
      {target : Place} (hmember : Json.member? "function" members = some value)
      (h : Leads ⟨level + 1, .field .text, value⟩ path target) :
      Leads ⟨level, .field .expression, .object members⟩ (.field "function" :: path) target

section leads

variable {start place : Place} {path : Path}

theorem Place.Leads.at? (h : start.Leads path place) :
    start.value.at? path = some place.value := by
  induction h with
  | here => rfl
  | item _ hitem _ ih =>
      rw [Json.at?_cons, Json.step?, hitem]
      exact ih
  | field _ _ hmember _ ih =>
      rw [Json.at?_cons, Json.step?, hmember]
      exact ih
  | marker hmember _ ih =>
      rw [Json.at?_cons, Json.step?, hmember]
      exact ih

theorem Place.Leads.trans {target : Place} {path' : Path} (h : start.Leads path place)
    (h' : place.Leads path' target) : start.Leads (path ++ path') target := by
  induction h with
  | here => exact h'
  | item hrole hitem _ ih => exact .item hrole hitem (ih h')
  | field hslots hslot hmember _ ih => exact .field hslots hslot hmember (ih h')
  | marker hmember _ ih => exact .marker hmember (ih h')

theorem Declares.role_of_mem {role : Role} {members : List (String × Json)} {slots : List Slot}
    {slot : Slot} (h : Declares role members slots) (hslot : slot ∈ slots) :
    slot.role ≠ .document ∧ (slot.role = .root → role = .document ∧ slot.name = "strategy") := by
  rcases h.slot_cases hslot with ⟨rfl, hslot⟩ | hslot | ⟨spec, rfl⟩
  · simp only [documentSlots, List.mem_cons, List.not_mem_nil, or_false] at hslot
    rcases hslot with rfl | rfl | rfl <;> simp
  · simp only [conditionalSlots, List.mem_cons, List.not_mem_nil, or_false] at hslot
    rcases hslot with rfl | rfl | rfl | rfl <;> simp
  · simp [Slot.ofSpec]

theorem Place.Leads.eq_of_document (h : start.Leads path place) (hplace : place.role = .document) :
    path = [] ∧ start = place := by
  induction h with
  | here => exact ⟨rfl, rfl⟩
  | item _ _ _ ih =>
      obtain ⟨_, rfl⟩ := ih hplace
      cases hplace
  | field hslots hslot _ _ ih =>
      obtain ⟨_, rfl⟩ := ih hplace
      exact absurd hplace (hslots.role_of_mem hslot).1
  | marker _ _ ih =>
      obtain ⟨_, rfl⟩ := ih hplace
      cases hplace

theorem Place.Leads.of_root (h : start.Leads path place) (hplace : place.role = .root) :
    path = [] ∧ start = place ∨ path = [.field "strategy"] ∧ start.role = .document := by
  induction h with
  | here => exact .inl ⟨rfl, rfl⟩
  | item _ _ _ ih =>
      rcases ih hplace with ⟨_, rfl⟩ | ⟨_, hrole⟩
      · cases hplace
      · cases hrole
  | field hslots hslot _ _ ih =>
      obtain ⟨hdocument, hroot⟩ := hslots.role_of_mem hslot
      rcases ih hplace with ⟨rfl, rfl⟩ | ⟨_, hrole⟩
      · obtain ⟨hrole, hname⟩ := hroot hplace
        rw [hname]
        exact .inr ⟨rfl, hrole⟩
      · exact absurd hrole hdocument
  | marker _ _ ih =>
      rcases ih hplace with ⟨_, rfl⟩ | ⟨_, hrole⟩
      · cases hplace
      · cases hrole

end leads

/-! ### Where diagnostics are made -/

/-- The diagnostic is about the value at the place, or about an absent or undeclared member
of it. -/
inductive Reported (policy : Policy) : Place → Diagnostic → Prop
  | misfit {place : Place} {d : Diagnostic} (h : Misfit policy place d) : Reported policy place d
  | missing {level : Nat} {role : Role} {members : List (String × Json)} {slots : List Slot}
      {slot : Slot} (hslots : Declares role members slots) (hslot : slot ∈ slots)
      (hmember : Json.member? slot.name members = none) (hrequired : slot.kind.isRequired = true) :
      Reported policy ⟨level, role, .object members⟩
        ((Defect.missingField slot.name).diagnostic.under (.field slot.name))
  | undeclared {level : Nat} {role : Role} {members : List (String × Json)} {slots : List Slot}
      {name : String} {value : Json} (hstrict : policy.strict = true)
      (hslots : Declares role members slots) (hname : name ∉ slots.map (·.name))
      (hmember : Json.member? name members = some value) :
      Reported policy ⟨level, role, .object members⟩
        ((Defect.unexpectedField name).diagnostic.under (.field name))

section reported

variable {policy : Policy} {start : Place} {ds : List Diagnostic}

open Validation in
/-- **Diagnostics come from where they say.**  The path of a diagnostic begins with the steps
to the place where it was made. -/
theorem Reports.exists_leads (h : Reports policy start ds) : ∀ d ∈ ds, ∃ path place e,
    start.Leads path place ∧ Reported policy place e ∧ d = e.behind path := by
  induction h with
  | nothing => exact nofun
  | misfit h =>
      intro d hd
      rw [List.mem_singleton.mp hd]
      exact ⟨[], _, _, .here, .misfit h, rfl⟩
  | items hrole _ ih =>
      intro d hd
      obtain ⟨i, item, hitem, e, he, rfl⟩ := mem_itemErrors.mp hd
      obtain ⟨path, place, e, hleads, hreported, rfl⟩ := ih item (List.mem_of_getElem? hitem) e he
      exact ⟨.index i :: path, place, e, .item hrole hitem hleads, hreported, rfl⟩
  | fields hslots _ _ ih =>
      intro d hd
      rcases List.mem_append.mp hd with hd | hd
      · obtain ⟨slot, hslot, hd⟩ := List.mem_flatMap.mp hd
        rcases mem_slotErrors.mp hd with ⟨value, hmember, e, he, rfl⟩ | ⟨hmember, hrequired, rfl⟩
        · obtain ⟨path, place, e, hleads, hreported, rfl⟩ := ih slot hslot value hmember e he
          exact ⟨.field slot.name :: path, place, e, .field hslots hslot hmember hleads,
            hreported, rfl⟩
        · exact ⟨[], _, _, .here, .missing hslots hslot hmember hrequired, rfl⟩
      · obtain ⟨hstrict, name, hmem, hname, rfl⟩ := mem_undeclared.mp hd
        obtain ⟨value, hmember⟩ := Option.ne_none_iff_exists'.mp
          fun hnone => Json.member?_eq_none_iff.mp hnone hmem
        exact ⟨[], _, _, .here, .undeclared hstrict hslots hname hmember, rfl⟩

end reported

/-! ### What the kinds of diagnostics say -/

/-- An object of the role with these members must have one of the name. -/
inductive Requires (role : Role) (members : List (String × Json)) : String → Prop
  | slot {slots : List Slot} {slot : Slot} (hslots : Declares role members slots)
      (hslot : slot ∈ slots) (hrequired : slot.kind.isRequired = true) :
      Requires role members slot.name
  | marker (hrole : role = .field .expression) : Requires role members "function"

/-- What the diagnostic says is so in the value that stands at the start of the walk. -/
def Diagnostic.Justified (policy : Policy) (start : Place) (d : Diagnostic) : Prop :=
  match d.kind with
  | .missingRequiredField => ∃ before name members, d.path = before ++ [.field name]
      ∧ start.value.at? before = some (.object members) ∧ Json.member? name members = none
      ∧ ∃ level role, start.Leads before ⟨level, role, .object members⟩
        ∧ Requires role members name
  | .unexpectedField => policy.strict = true ∧ (∃ value, start.value.at? d.path = some value)
      ∧ ∃ before name level role members slots, d.path = before ++ [.field name]
        ∧ start.Leads before ⟨level, role, .object members⟩ ∧ Declares role members slots
        ∧ name ∉ slots.map (·.name)
  | .wrongFieldType => ∃ value, start.value.at? d.path = some value
      ∧ ∃ level role, start.Leads d.path ⟨level, role, value⟩
        ∧ (¬ role.kind.Admits value
          ∨ role.kind = .identifier ∧ ∃ s, value = .string s ∧ ¬ IsVariableName s)
  | .enumValueNotAllowed => ∃ s, start.value.at? d.path = some (.string s)
      ∧ ∃ level allowed, start.Leads d.path ⟨level, .field (.oneOf allowed), .string s⟩
        ∧ s ∉ allowed
  | .arrayLengthMismatch => ∃ items, start.value.at? d.path = some (.array items)
      ∧ ((∃ level length, start.Leads d.path ⟨level, .field (.sequence (some length)), .array items⟩
          ∧ items.length ≠ length)
        ∨ (∃ level, start.Leads d.path ⟨level, .branch, .array items⟩)
          ∧ items = [] ∧ policy.allowEmptyBranches = false)
  | .unknownFunction => ∃ members name, start.value.at? d.path = some (.object members)
      ∧ Json.member? "function" members = some (.string name) ∧ name ≠ conditionalWord
      ∧ ∀ contract ∈ Catalog.all, contract.name ≠ name
  | .wrongTopLevelShape => start.role = .document
      ∧ (d.path = [] ∧ (∀ members, start.value ≠ .object members)
        ∨ d.path = [.field "strategy"] ∧ ∃ value, start.value.at? d.path = some value
          ∧ ∀ members, value = .object members →
            Json.member? "function" members ≠ some (.string conditionalWord))
  | .recursionLimitExceeded => ∃ value, start.value.at? d.path = some value
      ∧ start.Leads d.path ⟨policy.maxDepth + 1, .field .expression, value⟩

namespace Diagnostic

section justified

variable {policy : Policy} {start place : Place} {path : Path} {d : Diagnostic}

theorem behind_diagnostic (defect : Defect) (path : Path) :
    defect.diagnostic.behind path = ⟨path, defect.kind, defect.message⟩ := by
  unfold Defect.diagnostic behind
  rw [List.append_nil]

theorem justified_of_misfit (hlimit : 1 ≤ policy.maxDepth) (hstart : start.role ≠ .root)
    (hleads : start.Leads path place) (h : Misfit policy place d) :
    (d.behind path).Justified policy start := by
  have hat : start.value.at? path = some place.value := hleads.at?
  cases h with
  | @tooDeep level value hdeep hfirst =>
      -- the root of a strategy is visited whatever the limit is, so there must be a level for it
      have hlevel : level = policy.maxDepth + 1 := by omega
      subst hlevel
      rw [behind_diagnostic]
      exact ⟨value, hat, hleads⟩
  | wrongSort role h =>
      rw [behind_diagnostic]
      exact ⟨_, hat, _, role, hleads, .inl h⟩
  | notIdentifier h =>
      rw [behind_diagnostic]
      exact ⟨_, hat, _, _, hleads, .inr ⟨rfl, _, rfl, h⟩⟩
  | notAllowed h =>
      rw [behind_diagnostic]
      exact ⟨_, hat, _, _, hleads, h⟩
  | wrongLength h =>
      rw [behind_diagnostic]
      exact ⟨_, hat, .inl ⟨_, _, hleads, h⟩⟩
  | emptyBranch h =>
      rw [behind_diagnostic]
      exact ⟨_, hat, .inr ⟨⟨_, hleads⟩, rfl, h⟩⟩
  | noMarker h => exact ⟨path, "function", _, rfl, hat, h, _, _, hleads, .marker rfl⟩
  | @wrongMarker level members marker h hmarker =>
      have hfunction : start.Leads (path ++ [.field "function"])
          ⟨level + 1, .field .text, marker⟩ := hleads.trans (.marker h .here)
      have hsort : ¬ FieldKind.text.Admits marker := by
        cases marker with
        | string name => exact absurd rfl (hmarker name)
        | _ => exact id
      exact ⟨marker, hfunction.at?, _, _, hfunction, .inl hsort⟩
  | unknownFunction h hname hcall =>
      rw [behind_diagnostic]
      exact ⟨_, _, hat, h, hname, hcall⟩
  | notStrategy h =>
      obtain ⟨rfl, rfl⟩ := hleads.eq_of_document rfl
      exact ⟨rfl, .inl ⟨rfl, h⟩⟩
  | notConditional h =>
      rcases hleads.of_root rfl with ⟨_, rfl⟩ | ⟨rfl, hdocument⟩
      · exact absurd rfl hstart
      · exact ⟨hdocument, .inr ⟨rfl, _, hat, h⟩⟩

theorem justified_of_reported (hlimit : 1 ≤ policy.maxDepth) (hstart : start.role ≠ .root)
    (hleads : start.Leads path place) (h : Reported policy place d) :
    (d.behind path).Justified policy start := by
  cases h with
  | misfit h => exact justified_of_misfit hlimit hstart hleads h
  | missing hslots hslot hmember hrequired =>
      exact ⟨path, _, _, rfl, hleads.at?, hmember, _, _, hleads, .slot hslots hslot hrequired⟩
  | @undeclared _ _ _ _ name value hstrict hslots hname hmember =>
      have hat : start.value.at? (path ++ [.field name]) = some value := by
        rw [Json.at?_append, hleads.at?, Option.bind_some, Json.at?_cons, Json.step?, hmember,
          Option.bind_some, Json.at?_nil]
      exact ⟨hstrict, ⟨value, hat⟩, path, name, _, _, _, _, rfl, hleads, hslots, hname⟩

/-- **Every diagnostic is justified** by what the document has at its path, as long as the
limit leaves a level for the root of a strategy. -/
theorem justified_of_mem_ofResult (policy : Policy) (document : Json)
    (h : 1 ≤ policy.maxDepth) :
    (∀ d ∈ ofResult (Strategy.ofJson? policy document),
      d.Justified policy ⟨1, .document, document⟩)
    ∧ ∀ d ∈ ofResult (Expression.ofJson? policy document),
      d.Justified policy ⟨1, .field .expression, document⟩ := by
  constructor
  · intro d hd
    have hreports := Validation.reports_ofJson?_strategy policy document
    obtain ⟨path, place, e, hleads, hreported, rfl⟩ := hreports.exists_leads d hd
    exact justified_of_reported h nofun hleads hreported
  · intro d hd
    have hreports := Validation.reports_ofJson?_expression policy document
    obtain ⟨path, place, e, hleads, hreported, rfl⟩ := hreports.exists_leads d hd
    exact justified_of_reported h nofun hleads hreported

end justified

end Diagnostic

/-- A document without an author, with a note, a bad name and no actions. -/
def Json.mistaken : Json :=
  .object [("name", .string "idle"), ("note", .null),
    ("strategy", .object [("function", .string conditionalWord),
      ("if", .object [("function", .string "get"), ("symbol", .string "1x")]),
      ("then", .array [])])]

/-- The diagnostics of the mistaken document, of four kinds. -/
theorem Diagnostic.justified_mistaken :
    1 ≤ 2
    ∧ (ofResult (Strategy.ofJson? ⟨true, 2, false⟩ Json.mistaken)).map (·.kind)
      = [.missingRequiredField, .wrongFieldType, .arrayLengthMismatch, .unexpectedField]
    ∧ ∀ d ∈ ofResult (Strategy.ofJson? ⟨true, 2, false⟩ Json.mistaken),
      d.Justified ⟨true, 2, false⟩ ⟨1, .document, Json.mistaken⟩ := by
  have h : 1 ≤ 2 := by decide
  exact ⟨h, rfl, (justified_of_mem_ofResult ⟨true, 2, false⟩ Json.mistaken h).1⟩

end StrategyDoc
