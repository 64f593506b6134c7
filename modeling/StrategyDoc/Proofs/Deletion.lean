import StrategyDoc.Proofs.CleanPlaces
import StrategyDoc.Proofs.Substitution
import StrategyDoc.Proofs.Undeclared

/-! # Removing a member

In an accepted document every member of a visited object either has to be there, or may be left
out, or is not looked at.  Without a member that has to be there, the document is refused with
one diagnostic, which says so (`Place.errors_withoutMember_of_required`).  Without one that may
be left out it is accepted, and the strategy is the same without the field or branch
(`Represents.withoutMember`).  Without an undeclared one nothing changes. -/

namespace StrategyDoc

open Validation

/-! ### Members and fields -/

namespace Json

/-- The members but those of the name. -/
def withoutMember (name : String) (members : List (String × Json)) : List (String × Json) :=
  members.filter fun m => m.1 ≠ name

section members

variable {name key : String} {members : List (String × Json)}

theorem member?_withoutMember : member? name (withoutMember name members) = none := by
  rw [member?_eq_none_iff]
  intro hname
  obtain ⟨m, hm, hkey⟩ := List.mem_map.mp hname
  have hne := (List.mem_filter.mp hm).2
  exact absurd hkey (by simpa using hne)

theorem member?_withoutMember_of_ne (h : key ≠ name) :
    member? key (withoutMember name members) = member? key members := by
  induction members with
  | nil => rfl
  | cons m members ih =>
      obtain ⟨first, value⟩ := m
      unfold withoutMember at ih ⊢
      by_cases hfirst : first = name
      · rw [List.filter_cons_of_neg (by simpa using hfirst), ih, member?_cons,
          if_neg (hfirst ▸ h.symm)]
      · rw [List.filter_cons_of_pos (by simpa using hfirst), member?_cons, member?_cons, ih]

theorem withoutMember_eq_self (h : name ∉ members.map (·.1)) :
    withoutMember name members = members := by
  refine List.filter_eq_self.mpr fun m hm => ?_
  have hne : m.1 ≠ name := by
    rintro rfl
    exact h (List.mem_map_of_mem hm)
  simpa using hne

theorem map_fst_withoutMember_subset :
    (withoutMember name members).map (·.1) ⊆ members.map (·.1) :=
  List.map_subset _ (List.filter_subset_self _)

end members

end Json

theorem OnlyDeclared.withoutMember {strict : Bool} {declared : List String} {name : String}
    {members : List (String × Json)} (h : OnlyDeclared strict declared members) :
    OnlyDeclared strict declared (Json.withoutMember name members) :=
  h.of_subset Json.map_fst_withoutMember_subset

/-- The expression without its field or `else` of the name. -/
def Expression.without (name : String) : Expression → Expression
  | .number n => .number n
  | .call function fields => .call function (fields.filter fun field => field.1 ≠ name)
  | .conditional condition thenBranch elseBranch =>
    .conditional condition thenBranch (if name = "else" then none else elseBranch)

/-! ### Diagnostics -/

section diagnostics

variable {policy : Policy} {level : Nat} {role : Role} {members : List (String × Json)}
  {slots : List Slot} {slot : Slot}

theorem Place.errors_withoutMember (hslots : Declares role members slots) (hslot : slot ∈ slots)
    (hregular : Place.Regular ⟨level, role, .object members⟩)
    (hclean : Place.errors policy ⟨level, role, .object members⟩ = [])
    (hmarker : role.kind = .expression → "function" ≠ slot.name) :
    Place.errors policy ⟨level, role, .object (Json.withoutMember slot.name members)⟩
      = if slot.kind.isRequired then
          [(Defect.missingField slot.name).diagnostic.under (.field slot.name)]
        else [] := by
  rw [errors_of_slot hslots hslot hregular hclean hmarker Json.map_fst_withoutMember_subset
    fun _ => Json.member?_withoutMember_of_ne]
  unfold slotErrors
  rw [Json.member?_withoutMember]

/-- **A missing member is all that is wrong** with an object that was without defects before,
its marker included unless it is the root of a strategy. -/
theorem Place.errors_withoutMember_of_required (hslots : Declares role members slots)
    (hslot : slot ∈ slots) (hregular : Place.Regular ⟨level, role, .object members⟩)
    (hclean : Place.errors policy ⟨level, role, .object members⟩ = [])
    (hrequired : slot.kind.isRequired = true) (hroot : role = .root → slot.name ≠ "function") :
    Place.errors policy ⟨level, role, .object (Json.withoutMember slot.name members)⟩
      = [(Defect.missingField slot.name).diagnostic.under (.field slot.name)] := by
  by_cases hmarker : role.kind = .expression ∧ slot.name = "function"
  · obtain ⟨hrole, hname⟩ := hmarker
    cases role with
    | document => cases hrole
    | root => exact absurd hname (hroot rfl)
    | branch => cases hrole
    | field kind =>
        cases hrole
        rw [errors_expression (level_le_of_clean hclean rfl)]
        show (object policy _ _).errors = _
        rw [hname, object_unmarked Json.member?_withoutMember]
        rfl
  · have hname : role.kind = .expression → "function" ≠ slot.name :=
      fun hrole hname => hmarker ⟨hrole, hname.symm⟩
    rw [errors_withoutMember hslots hslot hregular hclean hname, if_pos hrequired]

theorem Place.errors_withoutMember_of_optional (hslots : Declares role members slots)
    (hslot : slot ∈ slots) (hregular : Place.Regular ⟨level, role, .object members⟩)
    (hclean : Place.errors policy ⟨level, role, .object members⟩ = [])
    (hoptional : ¬ slot.kind.isRequired = true) :
    Place.errors policy ⟨level, role, .object (Json.withoutMember slot.name members)⟩ = [] := by
  have hname : role.kind = .expression → "function" ≠ slot.name := by
    intro hrole hname
    rw [hslots.eq_marker hrole hslot hname.symm] at hoptional
    exact hoptional rfl
  rw [errors_withoutMember hslots hslot hregular hclean hname, if_neg hoptional]

end diagnostics

/-! ### Strategies -/

section strategies

variable {strict : Bool} {role : Role} {members : List (String × Json)} {slots : List Slot}
  {slot : Slot}

theorem FieldsRepresent.withoutMember {name : String} {specs : List FieldSpec}
    {fields : List (String × FieldValue)}
    (hoptional : ∀ spec ∈ specs, spec.1 = name → ¬ spec.2.isRequired = true)
    (h : FieldsRepresent strict specs members fields) :
    FieldsRepresent strict specs (Json.withoutMember name members)
      (fields.filter fun field => field.1 ≠ name) := by
  induction specs generalizing fields with
  | nil =>
      cases h
      exact .nil
  | cons spec specs ih =>
      obtain ⟨key, kind⟩ := spec
      obtain ⟨hkey, hoptional⟩ := List.forall_mem_cons.mp hoptional
      by_cases hname : key = name
      · have habsent : Json.member? key (Json.withoutMember name members) = none := by
          rw [hname, Json.member?_withoutMember]
        cases h with
        | skip _ _ hfields => exact .skip habsent (hkey hname) (ih hoptional hfields)
        | take _ _ hfields =>
            rw [List.filter_cons_of_neg (by simpa using hname)]
            exact .skip habsent (hkey hname) (ih hoptional hfields)
      · have hsame : Json.member? key (Json.withoutMember name members)
            = Json.member? key members := Json.member?_withoutMember_of_ne hname
        cases h with
        | skip habsent hskip hfields =>
            exact .skip (hsame.trans habsent) hskip (ih hoptional hfields)
        | take hpresent hvalue hfields =>
            rw [List.filter_cons_of_pos (by simpa using hname)]
            exact .take (hsame.trans hpresent) hvalue (ih hoptional hfields)

/-- **Without a member that may be left out**, an object represents the same expression without
the field or branch. -/
theorem Represents.withoutMember {e : Expression} (hslots : Declares role members slots)
    (hrole : role.kind = .expression) (hslot : slot ∈ slots)
    (hoptional : ¬ slot.kind.isRequired = true) (h : Represents strict (.object members) e) :
    Represents strict (.object (Json.withoutMember slot.name members)) (e.without slot.name) := by
  cases hslots with
  | document => cases hrole
  | conditional _ hfunction =>
      obtain ⟨c, rfl⟩ := h.exists_conditional hfunction
      simp only [conditionalSlots, List.mem_cons, List.not_mem_nil, or_false] at hslot
      rcases hslot with rfl | rfl | rfl | rfl
      · exact absurd rfl hoptional
      · exact absurd rfl hoptional
      · exact absurd rfl hoptional
      · have hkept : ∀ {key : String} {o : Option Json}, key ≠ "else" →
            Json.member? key members = o →
            Json.member? key (Json.withoutMember "else" members) = o := by
          intro key o hkey ho
          rw [Json.member?_withoutMember_of_ne hkey, ho]
        have habsent : ElseRepresents strict
            (Json.member? "else" (Json.withoutMember "else" members)) none := by
          rw [Json.member?_withoutMember]
          exact .absent
        cases h with
        | conditional _ hif hcondition hthen hthenBranch _ hdeclared =>
            exact .conditional (hkept (by decide) hfunction) (hkept (by decide) hif) hcondition
              (hkept (by decide) hthen) hthenBranch habsent hdeclared.withoutMember
  | @call _ contract hcontract hfunction =>
      obtain ⟨fields, rfl, hfields, hdeclared⟩ := h.exists_call hcontract hfunction
      rcases List.mem_cons.mp hslot with rfl | hslot
      · exact absurd rfl hoptional
      · obtain ⟨spec, hspec, rfl⟩ := List.mem_map.mp hslot
        have hne : "function" ≠ spec.1 := by
          intro hname
          have hmem : "function" ∈ contract.fieldNames := hname ▸ List.mem_map_of_mem hspec
          exact Catalog.function_not_mem_fieldNames hcontract hmem
        refine .call hcontract ?_ (hfields.withoutMember fun other hother hname => ?_)
          hdeclared.withoutMember
        · exact (Json.member?_withoutMember_of_ne hne).trans hfunction
        · have hnodup := (Catalog.wellNamed_fields hcontract).1
          rw [List.inj_on_of_nodup_map hnodup hother hspec hname]
          exact hoptional
  | shape => cases hrole

end strategies

/-! ### Documents -/

theorem Catalog.isRequired_of_mem_shapes {specs : List FieldSpec} (h : specs ∈ shapes)
    {spec : FieldSpec} (hspec : spec ∈ specs) : spec.2.isRequired = true := by
  have hall : ∀ specs ∈ shapes, ∀ spec ∈ specs, spec.2.isRequired = true := by decide +kernel
  exact hall specs h spec hspec

section documents

variable {policy : Policy} {document : Json} {s : Strategy} {path : Path} {level : Nat}
  {role : Role}

theorem Declares.kind_eq_expression {members : List (String × Json)} {slots : List Slot}
    {slot : Slot} (hslots : Declares role members slots) (hslot : slot ∈ slots)
    (hoptional : ¬ slot.kind.isRequired = true)
    (hleads : Place.Leads ⟨1, .document, document⟩ path ⟨level, role, .object members⟩) :
    role.kind = .expression := by
  cases hslots with
  | document =>
      simp only [documentSlots, List.mem_cons, List.not_mem_nil, or_false] at hslot
      rcases hslot with rfl | rfl | rfl <;> exact absurd rfl hoptional
  | conditional hrole => exact hrole
  | call => rfl
  | shape =>
      obtain ⟨spec, hspec, rfl⟩ := List.mem_map.mp hslot
      exact absurd (Catalog.isRequired_of_mem_shapes hleads.mem_shapes hspec) hoptional

/-- Where an accepted document has an expression, its strategy has it in the same place, and
with another expression the document represents the strategy with the other one there. -/
theorem DocumentRepresents.exists_replaceAt {value : Json}
    (hs : DocumentRepresents policy.strict document s)
    (hclean : Place.errors policy ⟨1, .document, document⟩ = [])
    (hleads : Place.Leads ⟨1, .document, document⟩ path ⟨level, role, value⟩)
    (hrole : role.kind = .expression) :
    ∃ e, s.at? path = some e ∧ Represents policy.strict value e
      ∧ ∀ v' e', Represents policy.strict v' e' →
        (role = .root → ∃ c : Conditional, e' = c.toExpression) →
        DocumentRepresents policy.strict (document.replaceAt path v') (s.replaceAt path e') := by
  cases role with
  | document => cases hrole
  | branch => cases hrole
  | root =>
      rcases hleads.of_root rfl with ⟨_, hplace⟩ | ⟨rfl, _⟩
      · cases hplace
      · have hat := hleads.at?
        cases hs with
        | @intro members root _ hname hauthor hstrategy hroot hdeclared =>
            rw [Json.at?_cons, Json.step?, hstrategy] at hat
            cases hat
            refine ⟨s.root.toExpression, rfl, hroot, fun v' e' he' hconditional => ?_⟩
            obtain ⟨c, rfl⟩ := hconditional rfl
            have hnew : s.replaceAt [.field "strategy"] c.toExpression = { s with root := c } :=
              Strategy.replaceAt_eq rfl
            have hdeclared' : OnlyDeclared policy.strict strategyFields
                (Json.modifyMember "strategy" (·.replaceAt [] v') members) := by
              refine hdeclared.of_subset ?_
              rw [Json.map_fst_modifyMember]
              exact List.Subset.refl _
            rw [hnew, Json.replaceAt]
            refine .intro ?_ ?_ ?_ he' hdeclared'
            · exact (Json.member?_modifyMember_of_ne (by decide)).trans hname
            · exact (Json.member?_modifyMember_of_ne (by decide)).trans hauthor
            · rw [Json.member?_modifyMember, hstrategy, Option.map_some, Json.replaceAt]
  | field kind =>
      cases hrole
      have hself : document.replaceAt path value = document := Json.replaceAt_self hleads.at?
      rw [← hself] at hs
      obtain ⟨e, hat, he, hreplace⟩ := (hleads.dispatches hclean).holds hs
      exact ⟨e, hat, he, fun v' e' he' _ => hreplace v' e' he'⟩

section removal

variable {members : List (String × Json)} {slots : List Slot} {slot : Slot}
  (hs : Strategy.ofJson? policy document = .ok s)
  (hleads : Place.Leads ⟨1, .document, document⟩ path ⟨level, role, .object members⟩)
  (hslots : Declares role members slots)

include hs hleads hslots

theorem Place.clean_of_ofJson? :
    Place.Regular ⟨level, role, .object members⟩
      ∧ Place.errors policy ⟨level, role, .object members⟩ = []
      ∧ ∀ v, (strategy policy (document.replaceAt path v)).errors
        = (Place.errors policy ⟨level, role, v⟩).map (·.behind path) := by
  have hclean : Place.errors policy ⟨1, .document, document⟩ = [] :=
    ((Finding.result_eq_ok_iff _ _).mp hs).2
  exact hleads.errors_replaceAt (.document document) hslots.role_ne_text hclean

theorem Strategy.ofJson?_withoutMember_of_required (hslot : slot ∈ slots)
    (hrequired : slot.kind.isRequired = true) (hroot : role = .root → slot.name ≠ "function") :
    Strategy.ofJson? policy
        (document.replaceAt path (.object (Json.withoutMember slot.name members)))
      = .error [⟨path ++ [.field slot.name], .missingRequiredField,
          (Defect.missingField slot.name).message⟩] := by
  obtain ⟨hregular, hclean, herrors⟩ := Place.clean_of_ofJson? hs hleads hslots
  have hmissing := Place.errors_withoutMember_of_required hslots hslot hregular hclean hrequired
    hroot
  have hfound := herrors (.object (Json.withoutMember slot.name members))
  rw [hmissing] at hfound
  have hne : (strategy policy (document.replaceAt path
      (.object (Json.withoutMember slot.name members)))).errors ≠ [] := by
    rw [hfound]
    exact List.cons_ne_nil _ _
  rw [Strategy.ofJson?, Finding.result_of_errors_ne_nil hne, hfound]
  rfl

theorem Strategy.ofJson?_withoutMember_of_optional (hslot : slot ∈ slots)
    (hoptional : ¬ slot.kind.isRequired = true) :
    ∃ e, s.at? path = some e ∧ Strategy.ofJson? policy
        (document.replaceAt path (.object (Json.withoutMember slot.name members)))
      = .ok (s.replaceAt path (e.without slot.name)) := by
  obtain ⟨hregular, hclean, herrors⟩ := Place.clean_of_ofJson? hs hleads hslots
  have hrole := hslots.kind_eq_expression hslot hoptional hleads
  have hfound := herrors (.object (Json.withoutMember slot.name members))
  rw [Place.errors_withoutMember_of_optional hslots hslot hregular hclean hoptional] at hfound
  obtain ⟨s', hs'⟩ := (coherent_strategy _).exists_result_eq_ok_iff.mpr hfound
  have hdocument := (Strategy.ofJson?_eq_ok_iff.mp hs).1
  obtain ⟨e, hat, he, hreplace⟩ := hdocument.exists_replaceAt
    ((Finding.result_eq_ok_iff _ _).mp hs).2 hleads hrole
  have hwithout := he.withoutMember hslots hrole hslot hoptional
  have hconditional : role = .root → ∃ c : Conditional, e.without slot.name = c.toExpression := by
    rintro rfl
    rcases hleads.of_root rfl with ⟨_, hplace⟩ | ⟨rfl, _⟩
    · cases hplace
    · obtain rfl : s.root.toExpression = e := Option.some.inj hat
      exact ⟨⟨s.root.condition, s.root.thenBranch,
        if slot.name = "else" then none else s.root.elseBranch⟩, rfl⟩
  have hdocument' := hreplace _ _ hwithout hconditional
  refine ⟨e, hat, ?_⟩
  rw [← (Strategy.ofJson?_eq_ok_iff.mp hs').1.unique hdocument']
  exact hs'

theorem Strategy.ofJson?_withoutMember_of_undeclared {name : String}
    (hname : name ∉ slots.map (·.name)) :
    Strategy.ofJson? policy (document.replaceAt path (.object (Json.withoutMember name members)))
      = .ok s := by
  cases hstrict : policy.strict with
  | false =>
      have halike : Alike .document document
          (document.replaceAt path (.object (Json.withoutMember name members))) := by
        refine hleads.alike_object hslots fun slot hslot => Json.member?_withoutMember_of_ne ?_
        rintro rfl
        exact hname (List.mem_map_of_mem hslot)
      rw [halike.ofJson?_eq hstrict, hs]
  | true =>
      obtain ⟨hregular, hclean, _⟩ := Place.clean_of_ofJson? hs hleads hslots
      have hdeclared := (Place.parts_of_clean hslots hregular hclean).2
      have habsent : name ∉ members.map (·.1) := by
        intro hmem
        obtain ⟨m, hm, rfl⟩ := List.mem_map.mp hmem
        exact hname (hdeclared hstrict m hm)
      rw [Json.withoutMember_eq_self habsent, Json.replaceAt_self hleads.at?, hs]

end removal

/-- **Removing a member of an accepted document.**  Without one that a visited object must have
the document is refused, and that is all that is wrong with it; without the marker of the root
there is no root, so that one is left out here.  Without one that the object may have, the
document is accepted, and its strategy has the same expression without the field or branch in
this place.  Without an undeclared one, nothing changes. -/
theorem Strategy.ofJson?_withoutMember (hs : Strategy.ofJson? policy document = .ok s)
    {members : List (String × Json)} {slots : List Slot}
    (hleads : Place.Leads ⟨1, .document, document⟩ path ⟨level, role, .object members⟩)
    (hslots : Declares role members slots) :
    (∀ slot ∈ slots, slot.kind.isRequired = true → (role = .root → slot.name ≠ "function") →
      Strategy.ofJson? policy
          (document.replaceAt path (.object (Json.withoutMember slot.name members)))
        = .error [⟨path ++ [.field slot.name], .missingRequiredField,
            (Defect.missingField slot.name).message⟩])
    ∧ (∀ slot ∈ slots, ¬ slot.kind.isRequired = true →
      ∃ e, s.at? path = some e ∧ Strategy.ofJson? policy
          (document.replaceAt path (.object (Json.withoutMember slot.name members)))
        = .ok (s.replaceAt path (e.without slot.name)))
    ∧ ∀ name ∉ slots.map (·.name), Strategy.ofJson? policy
        (document.replaceAt path (.object (Json.withoutMember name members))) = .ok s := by
  refine ⟨fun slot hslot hrequired hroot => ?_, fun slot hslot hoptional => ?_,
    fun name hname => ?_⟩
  · exact ofJson?_withoutMember_of_required hs hleads hslots hslot hrequired hroot
  · exact ofJson?_withoutMember_of_optional hs hleads hslots hslot hoptional
  · exact ofJson?_withoutMember_of_undeclared hs hleads hslots hname

end documents

/-- The members of a call for an average over twenty days. -/
def Json.dailyAverage : List (String × Json) :=
  [("candletime", .string "1day"), ("function", .string "SMA"), ("index", .number (.integer 0)),
    ("instrument", .object [("name", .string "Gold"), ("ticker", .string "GC"),
      ("type", .string "futures")]),
    ("period", .number (.integer 20))]

/-- A document with the call as its condition. -/
def Json.averaged : Json :=
  .object [("author", .string "nobody"), ("name", .string "idle"),
    ("strategy", .object [("function", .string conditionalWord),
      ("if", .object Json.dailyAverage), ("then", .array [])])]

/-- The call must have its period, it may have an index, and it has no note. -/
theorem Strategy.ofJson?_averaged :
    ∃ s e, ofJson? ⟨true, 3, true⟩ Json.averaged = .ok s
      ∧ s.at? [.field "strategy", .field "if"] = some e
      ∧ ofJson? ⟨true, 3, true⟩ (Json.averaged.replaceAt [.field "strategy", .field "if"]
          (.object (Json.withoutMember "period" Json.dailyAverage)))
        = .error [⟨[.field "strategy", .field "if", .field "period"], .missingRequiredField,
            (Defect.missingField "period").message⟩]
      ∧ ofJson? ⟨true, 3, true⟩ (Json.averaged.replaceAt [.field "strategy", .field "if"]
          (.object (Json.withoutMember "index" Json.dailyAverage)))
        = .ok (s.replaceAt [.field "strategy", .field "if"] (e.without "index"))
      ∧ ofJson? ⟨true, 3, true⟩ (Json.averaged.replaceAt [.field "strategy", .field "if"]
          (.object (Json.withoutMember "note" Json.dailyAverage)))
        = .ok s := by
  have hleads : Place.Leads ⟨1, .document, Json.averaged⟩ [.field "strategy", .field "if"]
      ⟨2, .field .expression, .object Json.dailyAverage⟩ :=
    .field .document (List.mem_of_getElem? (i := 2) rfl) rfl
      (.field (.conditional rfl rfl) (List.mem_of_getElem? (i := 1) rfl) rfl .here)
  have hslots : Declares (.field .expression) Json.dailyAverage
      ((Json.callSpecs ⟨"SMA", .movingAverage, Catalog.periodIndicator⟩).map Slot.ofSpec) :=
    .call (List.mem_of_getElem? (i := 26) rfl) rfl
  obtain ⟨s, hs⟩ : ∃ s, ofJson? ⟨true, 3, true⟩ Json.averaged = .ok s := ⟨_, rfl⟩
  obtain ⟨hrequired, hoptional, hundeclared⟩ := ofJson?_withoutMember hs hleads hslots
  have hperiod := hrequired (Slot.ofSpec ("period", .expression))
    (List.mem_of_getElem? (i := 3) rfl) rfl nofun
  obtain ⟨e, hat, hindex⟩ := hoptional (Slot.ofSpec ("index", .optional .expression))
    (List.mem_of_getElem? (i := 4) rfl) nofun
  exact ⟨s, e, hs, hat, hperiod, hindex, hundeclared "note" (by decide)⟩

end StrategyDoc
