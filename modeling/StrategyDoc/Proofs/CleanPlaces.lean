import Mathlib.Data.List.Sigma
import StrategyDoc.Proofs.Locality
import StrategyDoc.Proofs.Places
import StrategyDoc.Proofs.Strictness

/-! # Places without defects

`Place.errors` is what the walk finds in a value where it has come to it.  In a document without
defects, nothing is wrong with any place that a path leads to.  If another value is put in such
a place, all that is wrong with the document is what is wrong with the value there
(`Place.Leads.errors_replaceAt`).  A place for an expression is one where the walk visits an
expression (`Place.Leads.dispatches`). -/

namespace StrategyDoc

open Validation

theorem flatMap_eq_of_mem {α β : Type} {as : List α} {a : α} {f : α → List β}
    (hnodup : as.Nodup) (ha : a ∈ as) (h : ∀ b ∈ as, b ≠ a → f b = []) : as.flatMap f = f a := by
  induction as with
  | nil => cases ha
  | cons first as ih =>
      obtain ⟨hfirst, hnodup⟩ := List.nodup_cons.mp hnodup
      obtain ⟨hhead, htail⟩ := List.forall_mem_cons.mp h
      rw [List.flatMap_cons]
      rcases List.mem_cons.mp ha with rfl | ha
      · have hnone : as.flatMap f = [] := by
          refine List.flatMap_eq_nil_iff.mpr fun b hb => htail b hb ?_
          rintro rfl
          exact hfirst hb
        rw [hnone, List.append_nil]
      · have hne : first ≠ a := by
          rintro rfl
          exact hfirst ha
        rw [hhead hne, List.nil_append, ih hnodup ha htail]

/-! ### What is found at a place -/

/-- What is found in a value where the walk has come to it. -/
def Place.errors (policy : Policy) (place : Place) : List Diagnostic :=
  let visit := expression policy (policy.maxDepth + 1 - place.level)
  match place.role with
  | .document => (strategy policy place.value).errors
  | .root => (root policy place.value).errors
  | .branch => (branch policy visit place.value).errors
  | .field kind => (fieldValue policy visit kind place.value).errors

section places

variable {policy : Policy} {level : Nat} {role : Role} {members : List (String × Json)}
  {slots : List Slot}

theorem partErrors_eq_errors (hslots : Declares role members slots) {slot : Slot}
    (hslot : slot ∈ slots) (value : Json) :
    partErrors policy (expression policy (policy.maxDepth + 1 - level)) slot value
      = Place.errors policy ⟨level, slot.role, value⟩ := by
  have hkind := hslots.bare_kind hslot
  unfold partErrors Place.errors
  cases hrole : slot.role with
  | document => exact absurd hrole (hslots.role_of_mem hslot).1
  | root => rfl
  | branch => rfl
  | field kind =>
      rw [hrole] at hkind
      dsimp only
      rw [← fieldValue_bare slot.kind, ← hkind, Role.kind, fieldValue_bare]

theorem Place.errors_expression (hlevel : level ≤ policy.maxDepth) (value : Json) :
    Place.errors policy ⟨level, .field .expression, value⟩
      = (node policy (expression policy (policy.maxDepth + 1 - (level + 1))) value).errors := by
  have hbudget : policy.maxDepth + 1 - level = policy.maxDepth + 1 - (level + 1) + 1 := by omega
  unfold Place.errors
  dsimp only
  rw [fieldValue_expression, Finding.errors_map, hbudget]
  rfl

/-- **What is found in an object** is found in its slots and among its undeclared members. -/
theorem Place.errors_object (hslots : Declares role members slots)
    (hfirst : role = .document ∨ role = .root → level = 1)
    (hlevel : role = .field .expression → level ≤ policy.maxDepth) :
    Place.errors policy ⟨level, role, .object members⟩
      = slots.flatMap (slotErrors
          (fun slot value => Place.errors policy ⟨level + role.levels, slot.role, value⟩) members)
        ++ undeclared policy (slots.map (·.name)) members := by
  have hparts : slots.flatMap (slotErrors
      (partErrors policy (expression policy (policy.maxDepth + 1 - (level + role.levels)))) members)
      = slots.flatMap (slotErrors
        (fun slot value => Place.errors policy ⟨level + role.levels, slot.role, value⟩) members) := by
    refine List.flatMap_congr fun slot hslot => ?_
    cases hmember : Json.member? slot.name members with
    | none =>
        unfold slotErrors
        rw [hmember]
    | some value =>
        rw [slotErrors_of_member? hmember, slotErrors_of_member? hmember,
          partErrors_eq_errors hslots hslot]
  rw [← hparts]
  cases hslots with
  | document => exact errors_strategy_slots policy _
  | conditional hkind hfunction =>
      cases role with
      | document => cases hkind
      | branch => cases hkind
      | root =>
          cases hfirst (.inr rfl)
          show (root policy (.object members)).errors = _
          rw [root_conditional hfunction]
          exact errors_conditional_slots hfunction
      | field kind =>
          cases hkind
          rw [errors_expression (hlevel rfl)]
          show (object policy _ members).errors = _
          rw [object_conditional hfunction, Finding.errors_map]
          exact errors_conditional_slots hfunction
  | call hcontract hfunction =>
      rw [errors_expression (hlevel rfl)]
      show (object policy _ members).errors = _
      rw [object_call hcontract hfunction]
      exact errors_call_slots hfunction
  | shape => exact errors_shape _

theorem Place.errors_array {length : Option Nat} {items : List Json}
    (hrole : role.kind = .sequence length) (hnil : items ≠ [])
    (hlength : ∀ expected, length = some expected → items.length = expected) :
    Place.errors policy ⟨level, role, .array items⟩
      = itemErrors (fun item => Place.errors policy ⟨level, .field .expression, item⟩) items := by
  have hitems : (fun item => (expression policy (policy.maxDepth + 1 - level) item).errors)
      = fun item => Place.errors policy ⟨level, .field .expression, item⟩ := by
    funext item
    unfold errors
    dsimp only
    rw [fieldValue_expression, Finding.errors_map]
  rw [← hitems, ← errors_expressions]
  cases role with
  | document => cases hrole
  | root => cases hrole
  | branch =>
      show (branch policy _ _).errors = _
      rw [branch_array_of_allowed fun _ => hnil]
  | field kind =>
      cases hrole
      show (fieldValue policy _ _ _).errors = _
      rw [fieldValue_sequence hlength, Finding.errors_map]

end places

/-! ### Where nothing is wrong -/

/-- The walk can come to a place like this from the root of a document: the root is on the
first level, and shapes are those of the catalog. -/
structure Place.Regular (place : Place) : Prop where
  inCatalog : place.role.InCatalog
  first : place.role = .document ∨ place.role = .root → place.level = 1
  level_pos : 1 ≤ place.level

section clean

variable {policy : Policy} {level : Nat} {role : Role} {members members' : List (String × Json)}
  {slots : List Slot} {slot : Slot} {value : Json}

theorem Place.Regular.document (value : Json) : Place.Regular ⟨1, .document, value⟩ :=
  ⟨.inl rfl, fun _ => rfl, Nat.le_refl 1⟩

theorem Place.Regular.item {item : Json} (h : Place.Regular ⟨level, role, value⟩) :
    Place.Regular ⟨level, .field .expression, item⟩ :=
  ⟨.of_shapes_eq_nil rfl, by simp, h.level_pos⟩

theorem Place.Regular.field {inner : Json} (h : Place.Regular ⟨level, role, value⟩)
    (hslots : Declares role members slots) (hslot : slot ∈ slots) :
    Place.Regular ⟨level + role.levels, slot.role, inner⟩ where
  inCatalog := hslots.inCatalog h.inCatalog hslot
  first := by
    obtain ⟨hdocument, hroot⟩ := hslots.role_of_mem hslot
    rintro (hrole | hrole)
    · exact absurd hrole hdocument
    · obtain ⟨rfl, _⟩ := hroot hrole
      exact h.first (.inl rfl)
  level_pos := Nat.le_trans h.level_pos (Nat.le_add_right _ _)

theorem Place.level_le_of_clean (hclean : Place.errors policy ⟨level, role, value⟩ = [])
    (hrole : role = .field .expression) : level ≤ policy.maxDepth := by
  by_contra hlevel
  have hbudget : policy.maxDepth + 1 - level = 0 := by omega
  rw [hrole] at hclean
  unfold errors at hclean
  dsimp only at hclean
  rw [fieldValue_expression, hbudget] at hclean
  cases hclean

theorem Place.length_of_clean {length : Option Nat} {items : List Json}
    (hrole : role.kind = .sequence length)
    (hclean : Place.errors policy ⟨level, role, .array items⟩ = []) :
    ∀ expected, length = some expected → items.length = expected := by
  rcases length_cases length items with hlength | ⟨expected, rfl, hne⟩
  · exact hlength
  · cases role with
    | document => cases hrole
    | root => cases hrole
    | branch => cases hrole
    | field kind =>
        cases hrole
        unfold errors at hclean
        dsimp only at hclean
        rw [fieldValue_sequence_of_length_ne hne] at hclean
        cases hclean

theorem Place.clean_item {length : Option Nat} {items : List Json} {i : Nat} {item : Json}
    (hrole : role.kind = .sequence length) (hitem : items[i]? = some item)
    (hclean : Place.errors policy ⟨level, role, .array items⟩ = []) :
    Place.errors policy ⟨level, .field .expression, item⟩ = [] := by
  have hnil : items ≠ [] := by
    rintro rfl
    cases hitem
  rw [errors_array hrole hnil (length_of_clean hrole hclean), itemErrors,
    List.flatMap_eq_nil_iff] at hclean
  exact List.map_eq_nil_iff.mp (hclean (item, i) (List.mk_mem_zipIdx_iff_getElem?.mpr hitem))

/-- Where nothing is wrong with an object, nothing is wrong with its slots, and no member is
undeclared under a strict policy. -/
theorem Place.parts_of_clean (hslots : Declares role members slots)
    (hregular : Place.Regular ⟨level, role, .object members⟩)
    (hclean : Place.errors policy ⟨level, role, .object members⟩ = []) :
    (∀ slot ∈ slots, slotErrors (fun slot value =>
        Place.errors policy ⟨level + role.levels, slot.role, value⟩) members slot = [])
      ∧ OnlyDeclared policy.strict (slots.map (·.name)) members := by
  rw [errors_object hslots hregular.first (level_le_of_clean hclean), List.append_eq_nil_iff,
    List.flatMap_eq_nil_iff, undeclared_eq_nil_iff] at hclean
  exact hclean

theorem Place.clean_slot (hslots : Declares role members slots) (hslot : slot ∈ slots)
    (hmember : Json.member? slot.name members = some value)
    (hregular : Place.Regular ⟨level, role, .object members⟩)
    (hclean : Place.errors policy ⟨level, role, .object members⟩ = []) :
    Place.errors policy ⟨level + role.levels, slot.role, value⟩ = [] := by
  have hpart := (parts_of_clean hslots hregular hclean).1 slot hslot
  rw [slotErrors_of_member? hmember] at hpart
  exact List.map_eq_nil_iff.mp hpart

end clean

/-! ### Another value in one place -/

section replacement

variable {policy : Policy} {members members' : List (String × Json)} {slots : List Slot}

theorem Declares.congr {role : Role} (h : Declares role members slots)
    (hfunction : role.kind = .expression →
      Json.member? "function" members' = Json.member? "function" members) :
    Declares role members' slots := by
  cases h with
  | document => exact .document
  | conditional hrole hname => exact .conditional hrole ((hfunction hrole).trans hname)
  | call hcontract hname => exact .call hcontract ((hfunction rfl).trans hname)
  | shape => exact .shape

theorem Declares.eq_documentSlots (h : Declares .document members slots) :
    slots = documentSlots := by
  cases h with
  | document => rfl
  | conditional hrole => cases hrole

theorem Declares.eq_marker {role : Role} (h : Declares role members slots)
    (hrole : role.kind = .expression) {slot : Slot} (hslot : slot ∈ slots)
    (hname : slot.name = "function") : slot = ⟨"function", .text, .field .text⟩ := by
  cases h with
  | document => cases hrole
  | conditional =>
      simp only [conditionalSlots, List.mem_cons, List.not_mem_nil, or_false] at hslot
      rcases hslot with rfl | rfl | rfl | rfl
      · rfl
      all_goals simp at hname
  | @call _ contract hcontract =>
      rcases List.mem_cons.mp hslot with rfl | hslot
      · rfl
      · obtain ⟨spec, hspec, rfl⟩ := List.mem_map.mp hslot
        have hmem : "function" ∈ contract.fieldNames := hname ▸ List.mem_map_of_mem hspec
        exact absurd hmem (Catalog.function_not_mem_fieldNames hcontract)
  | shape => cases hrole

theorem OnlyDeclared.of_subset {strict : Bool} {declared : List String}
    (hnames : members'.map (·.1) ⊆ members.map (·.1))
    (h : OnlyDeclared strict declared members) : OnlyDeclared strict declared members' := by
  intro hstrict m hm
  obtain ⟨m', hm', hname⟩ := List.mem_map.mp (hnames (List.mem_map_of_mem hm))
  exact hname ▸ h hstrict m' hm'

section parts

variable {level : Nat} {role : Role}

/-- With another value in one slot, or none, all that is found is found there. -/
theorem Place.errors_of_slot (hslots : Declares role members slots) {slot : Slot}
    (hslot : slot ∈ slots) (hregular : Place.Regular ⟨level, role, .object members⟩)
    (hclean : Place.errors policy ⟨level, role, .object members⟩ = [])
    (hmarker : role.kind = .expression → "function" ≠ slot.name)
    (hnames : members'.map (·.1) ⊆ members.map (·.1))
    (hsame : ∀ name, name ≠ slot.name → Json.member? name members' = Json.member? name members) :
    Place.errors policy ⟨level, role, .object members'⟩
      = slotErrors (fun slot value =>
          Place.errors policy ⟨level + role.levels, slot.role, value⟩) members' slot := by
  obtain ⟨hslotsClean, hdeclared⟩ := parts_of_clean hslots hregular hclean
  have hnodup := hslots.nodup_names hregular.inCatalog
  have hslots' : Declares role members' slots := hslots.congr fun hrole => hsame _ (hmarker hrole)
  rw [errors_object hslots' hregular.first (level_le_of_clean hclean),
    undeclared_eq_nil_iff.mpr (hdeclared.of_subset hnames), List.append_nil]
  refine flatMap_eq_of_mem (List.Nodup.of_map _ hnodup) hslot fun other hother hne => ?_
  have hname : other.name ≠ slot.name :=
    fun hname => hne (List.inj_on_of_nodup_map hnodup hother hslot hname)
  rw [← hslotsClean other hother]
  unfold slotErrors
  rw [hsame other.name hname]

theorem Place.errors_modifyMember (hslots : Declares role members slots) {slot : Slot}
    (hslot : slot ∈ slots) {value : Json} (hmember : Json.member? slot.name members = some value)
    (hregular : Place.Regular ⟨level, role, .object members⟩)
    (hclean : Place.errors policy ⟨level, role, .object members⟩ = [])
    (hmarker : role.kind = .expression → "function" ≠ slot.name) (f : Json → Json) :
    Place.errors policy ⟨level, role, .object (Json.modifyMember slot.name f members)⟩
      = (Place.errors policy ⟨level + role.levels, slot.role, f value⟩).map
          (·.under (.field slot.name)) := by
  have hfound : Json.member? slot.name (Json.modifyMember slot.name f members)
      = some (f value) := by
    rw [Json.member?_modifyMember, hmember, Option.map_some]
  have hnames : (Json.modifyMember slot.name f members).map (·.1) ⊆ members.map (·.1) := by
    rw [Json.map_fst_modifyMember]
    exact List.Subset.refl _
  rw [errors_of_slot hslots hslot hregular hclean hmarker hnames
    fun _ => Json.member?_modifyMember_of_ne, slotErrors_of_member? hfound]

theorem Place.errors_modify {length : Option Nat} {items : List Json} {i : Nat} {item : Json}
    (hrole : role.kind = .sequence length) (hitem : items[i]? = some item)
    (hclean : Place.errors policy ⟨level, role, .array items⟩ = []) (f : Json → Json) :
    Place.errors policy ⟨level, role, .array (items.modify i f)⟩
      = (Place.errors policy ⟨level, .field .expression, f item⟩).map (·.under (.index i)) := by
  have hlength := length_of_clean hrole hclean
  have hnodup : (items.modify i f).zipIdx.Nodup := (List.nodup_zipIdx_map_snd _).of_map
  have hmem : (f item, i) ∈ (items.modify i f).zipIdx := by
    rw [List.mk_mem_zipIdx_iff_getElem?, List.getElem?_modify_eq, hitem]
    rfl
  have hnil : items.modify i f ≠ [] := List.ne_nil_of_mem (List.fst_mem_of_mem_zipIdx hmem)
  rw [errors_array hrole hnil (by simpa using hlength)]
  refine flatMap_eq_of_mem hnodup hmem ?_
  rintro ⟨other, j⟩ hother hne
  rw [List.mk_mem_zipIdx_iff_getElem?] at hother
  have hj : i ≠ j := by
    rintro rfl
    rw [List.getElem?_modify_eq, hitem] at hother
    cases hother
    exact hne rfl
  rw [List.getElem?_modify_ne _ _ hj] at hother
  exact List.map_eq_nil_iff.mpr (clean_item hrole hother hclean)

end parts

/-- **All that is wrong is wrong in one place.**  Where nothing is wrong with a value, and
another value is put in one place inside, all that is found is what is found there. -/
theorem Place.Leads.errors_replaceAt {start target : Place} {path : Path}
    (h : start.Leads path target) (hregular : start.Regular)
    (htarget : target.role ≠ .field .text) (hclean : start.errors policy = []) :
    target.Regular ∧ target.errors policy = []
      ∧ ∀ v, Place.errors policy ⟨start.level, start.role, start.value.replaceAt path v⟩
        = (Place.errors policy ⟨target.level, target.role, v⟩).map (·.behind path) := by
  induction h with
  | here =>
      refine ⟨hregular, hclean, fun v => ?_⟩
      rw [Json.replaceAt]
      exact (List.map_id _).symm
  | @item level i role length items item path target hrole hitem _ ih =>
      obtain ⟨htargetRegular, htargetClean, hitemErrors⟩ :=
        ih hregular.item htarget (Place.clean_item hrole hitem hclean)
      refine ⟨htargetRegular, htargetClean, fun v => ?_⟩
      dsimp only
      rw [Json.replaceAt, Place.errors_modify hrole hitem hclean, hitemErrors, List.map_map]
      rfl
  | @field level role members slots slot value path target hslots hslot hmember hleads ih =>
      have hvalueClean := Place.clean_slot hslots hslot hmember hregular hclean
      obtain ⟨htargetRegular, htargetClean, hvalueErrors⟩ :=
        ih (hregular.field hslots hslot) htarget hvalueClean
      refine ⟨htargetRegular, htargetClean, fun v => ?_⟩
      have hmarker : role.kind = .expression → "function" ≠ slot.name := by
        rintro hrole hname
        obtain rfl := hslots.eq_marker hrole hslot hname.symm
        obtain ⟨_, rfl⟩ := hleads.eq_of_text rfl
        exact htarget rfl
      dsimp only
      rw [Json.replaceAt, Place.errors_modifyMember hslots hslot hmember hregular hclean hmarker,
        hvalueErrors, List.map_map]
      rfl
  | marker _ hleads =>
      obtain ⟨_, rfl⟩ := hleads.eq_of_text rfl
      exact absurd rfl htarget

end replacement

/-! ### Where expressions are visited -/

section dispatches

variable {policy : Policy}

theorem Reaches.of_bare {level target : Nat} {kind : FieldKind} {value : Json} {path : Path}
    (h : Reaches policy level kind.bare value path target) :
    Reaches policy level kind value path target := by
  induction kind using FieldKind.bare.induct with
  | case1 inner ih => exact .optional (ih h)
  | case2 kind hkind =>
      rw [FieldKind.bare.eq_2 kind hkind] at h
      exact h

theorem Place.Leads.reaches {start target : Place} {path : Path} (h : start.Leads path target)
    (hregular : start.Regular) (hclean : start.errors policy = [])
    (htarget : target.role = .field .expression) (hdocument : start.role ≠ .document)
    (hroot : start.role ≠ .root) {kind : FieldKind} (hkind : start.role.kind.bare = kind.bare) :
    Reaches policy (start.level - 1) kind start.value path target.level := by
  induction h generalizing kind with
  | @here place =>
      have hlevel : place.level - 1 + 1 = place.level := Nat.sub_add_cancel hregular.level_pos
      rw [htarget] at hkind
      refine .of_bare ?_
      rw [← hkind]
      exact hlevel ▸ .here
  | @item level i role length items item path target hrole hitem _ ih =>
      have hlength := Place.length_of_clean hrole hclean
      have hreaches : Reaches policy (level - 1) .expression item path target.level :=
        ih hregular.item (Place.clean_item hrole hitem hclean) htarget nofun nofun rfl
      dsimp only at hkind
      rw [hrole] at hkind
      refine .of_bare ?_
      rw [← hkind]
      exact .item hlength hitem hreaches
  | @field level role members slots slot value path target hslots hslot hmember hleads ih =>
      have hvalueClean := Place.clean_slot hslots hslot hmember hregular hclean
      obtain ⟨hslotDocument, hslotRoot⟩ := hslots.role_of_mem hslot
      have hreaches := ih (hregular.field hslots hslot) hvalueClean htarget hslotDocument
        (fun hrole => hdocument (hslotRoot hrole).1) (hslots.bare_kind hslot)
      refine .of_bare ?_
      rw [← hkind]
      obtain ⟨above, rfl⟩ := Nat.exists_eq_add_of_le' hregular.level_pos
      cases hslots with
      | document => exact absurd rfl hdocument
      | conditional hrole hfunction =>
          have hfield : (slot.name, slot.kind) ∈ Json.nodeSpecs members := by
            rw [Json.nodeSpecs_conditional hfunction]
            exact List.mem_map_of_mem (f := Slot.spec) hslot
          cases role with
          | document => cases hrole
          | root => exact absurd rfl hroot
          | branch => cases hrole
          | field kind =>
              cases hrole
              exact .inside (Place.level_le_of_clean hclean rfl) hfield hmember hreaches
      | call hcontract hfunction =>
          obtain ⟨spec, hspec, rfl⟩ := List.mem_map.mp hslot
          have hfield : spec ∈ Json.nodeSpecs members := by
            rw [Json.nodeSpecs_call hcontract hfunction]
            exact hspec
          exact .inside (Place.level_le_of_clean hclean rfl) hfield hmember hreaches
      | shape =>
          obtain ⟨spec, hspec, rfl⟩ := List.mem_map.mp hslot
          exact .shape hspec hmember hreaches
  | marker _ hleads =>
      obtain ⟨_, rfl⟩ := hleads.eq_of_text rfl
      cases htarget

/-- **The walk visits what it leads to**: in a document without defects, a path to a place for
an expression is one where the walk visits an expression. -/
theorem Place.Leads.dispatches {document value : Json} {path : Path} {level : Nat}
    (h : Leads ⟨1, .document, document⟩ path ⟨level, .field .expression, value⟩)
    (hclean : Place.errors policy ⟨1, .document, document⟩ = []) :
    Dispatches policy document path level := by
  have hregular := Place.Regular.document document
  cases h with
  | item hrole => cases hrole
  | @field _ _ members _ slot root path _ hslots hslot hmember hleads =>
      have hrootClean := Place.clean_slot hslots hslot hmember hregular hclean
      have hrootRegular : Regular ⟨_, _, root⟩ := hregular.field hslots hslot
      obtain rfl := hslots.eq_documentSlots
      simp only [documentSlots, List.mem_cons, List.not_mem_nil, or_false] at hslot
      rcases hslot with rfl | rfl | rfl
      · cases (hleads.eq_of_text rfl).2
      · cases (hleads.eq_of_text rfl).2
      · cases hleads with
        | item hrole => cases hrole
        | @field _ _ inner _ part value path _ hslots hpart hvalue hleads =>
            have hvalueClean := Place.clean_slot hslots hpart hvalue hrootRegular hrootClean
            obtain ⟨hdocument, hroot⟩ := hslots.role_of_mem hpart
            have hreaches := hleads.reaches (hrootRegular.field hslots hpart) hvalueClean rfl
              hdocument (fun hrole => Role.noConfusion (hroot hrole).1) (hslots.bare_kind hpart)
            cases hslots with
            | conditional _ hfunction =>
                have hfield : (part.name, part.kind) ∈ Json.conditionalSpecs :=
                  List.mem_map_of_mem (f := Slot.spec) hpart
                exact .intro hmember hfunction hfield hvalue hreaches

end dispatches

end StrategyDoc
