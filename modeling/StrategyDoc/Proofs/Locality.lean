import StrategyDoc.Proofs.Replacement
import StrategyDoc.Proofs.Visits

/-! # Diagnostics are local

`Dispatches policy document path level` says that the walk through a document visits an
expression at the path, at a nesting level.  Whatever value stands at such a path, what is
found outside stays the same: the diagnostics of the whole are those of the value, in the
middle of diagnostics that do not depend on it (`Dispatches.frames`). -/

namespace StrategyDoc

/-! ### Where expressions are visited -/

section dispatches

variable (policy : Policy)

/-- Among the fields of an expression at `level`, one of the kind with the value leads to an
expression at the path, which is visited at the level `target`. -/
inductive Reaches : (level : Nat) → FieldKind → Json → Path → (target : Nat) → Prop
  | here {level : Nat} {value : Json} : Reaches level .expression value [] (level + 1)
  | inside {level target : Nat} {members : List (String × Json)} {name : String}
      {kind : FieldKind} {value : Json} {path : Path} (hlevel : level + 1 ≤ policy.maxDepth)
      (hfield : (name, kind) ∈ Json.nodeSpecs members)
      (hmember : Json.member? name members = some value)
      (h : Reaches (level + 1) kind value path target) :
      Reaches level .expression (.object members) (.field name :: path) target
  | item {level target : Nat} {length : Option Nat} {items : List Json} {i : Nat} {item : Json}
      {path : Path} (hlength : ∀ expected, length = some expected → items.length = expected)
      (hitem : items[i]? = some item) (h : Reaches level .expression item path target) :
      Reaches level (.sequence length) (.array items) (.index i :: path) target
  | shape {level target : Nat} {specs : List FieldSpec} {members : List (String × Json)}
      {name : String} {kind : FieldKind} {value : Json} {path : Path}
      (hfield : (name, kind) ∈ specs) (hmember : Json.member? name members = some value)
      (h : Reaches level kind value path target) :
      Reaches level (.shape specs) (.object members) (.field name :: path) target
  | optional {level target : Nat} {inner : FieldKind} {value : Json} {path : Path}
      (h : Reaches level inner value path target) :
      Reaches level (.optional inner) value path target

/-- The walk through the document visits an expression at the path, at the nesting level. -/
inductive Dispatches : Json → Path → (level : Nat) → Prop
  | intro {level : Nat} {members root : List (String × Json)} {name : String} {kind : FieldKind}
      {value : Json} {path : Path}
      (hstrategy : Json.member? "strategy" members = some (.object root))
      (hfunction : Json.member? "function" root = some (.string conditionalWord))
      (hfield : (name, kind) ∈ Json.conditionalSpecs)
      (hmember : Json.member? name root = some value) (h : Reaches policy 1 kind value path level) :
      Dispatches (.object members) (.field "strategy" :: .field name :: path) level

end dispatches

/-- Where the walk visits an expression, there is something. -/
theorem Reaches.exists_at? {policy : Policy} {level target : Nat} {kind : FieldKind} {value : Json}
    {path : Path} (h : Reaches policy level kind value path target) :
    ∃ part, value.at? path = some part := by
  induction h with
  | here => exact ⟨_, rfl⟩
  | inside _ _ hmember _ ih =>
      rw [Json.at?_cons, Json.step?, hmember]
      exact ih
  | item _ hitem _ ih =>
      rw [Json.at?_cons, Json.step?, hitem]
      exact ih
  | shape _ hmember _ ih =>
      rw [Json.at?_cons, Json.step?, hmember]
      exact ih
  | optional _ ih => exact ih

theorem Dispatches.exists_at? {policy : Policy} {level : Nat} {document : Json} {path : Path}
    (h : Dispatches policy document path level) : ∃ part, document.at? path = some part := by
  cases h with
  | intro hstrategy _ _ hmember h =>
      rw [Json.at?_cons, Json.step?, hstrategy, Option.bind_some, Json.at?_cons, Json.step?, hmember]
      exact h.exists_at?

/-! ### Frames -/

/-- The diagnostic as seen from the value around which the path starts. -/
def Diagnostic.behind (path : Path) (d : Diagnostic) : Diagnostic := { d with path := path ++ d.path }

/-- Of the diagnostics `F v`, the ones that depend on `v` are `G v`, in one place and at the
path. -/
def Frames (path : Path) (F G : Json → List Diagnostic) : Prop :=
  ∃ before after, ∀ v, F v = before ++ (G v).map (·.behind path) ++ after

namespace Frames

variable {path : Path} {F G : Json → List Diagnostic}

theorem refl (G : Json → List Diagnostic) : Frames [] G G := by
  refine ⟨[], [], fun v => ?_⟩
  have hself : (G v).map (·.behind []) = G v := List.map_id _
  rw [List.nil_append, List.append_nil, hself]

theorem append (as : List Diagnostic) (h : Frames path F G) :
    Frames path (fun v => as ++ F v) G := by
  obtain ⟨before, after, h⟩ := h
  refine ⟨as ++ before, after, fun v => ?_⟩
  dsimp only
  rw [h, List.append_assoc, List.append_assoc, List.append_assoc]

theorem append_right (as : List Diagnostic) (h : Frames path F G) :
    Frames path (fun v => F v ++ as) G := by
  obtain ⟨before, after, h⟩ := h
  refine ⟨before, after ++ as, fun v => ?_⟩
  dsimp only
  rw [h, List.append_assoc, List.append_assoc]

theorem under (step : Step) (h : Frames path F G) :
    Frames (step :: path) (fun v => (F v).map (·.under step)) G := by
  obtain ⟨before, after, h⟩ := h
  refine ⟨before.map (·.under step), after.map (·.under step), fun v => ?_⟩
  have hbehind : ((G v).map (·.behind path)).map (·.under step)
      = (G v).map (·.behind (step :: path)) := List.map_map
  dsimp only
  rw [h, List.map_append, List.map_append, hbehind]

end Frames

/-! ### One visit

Each visit leaves a frame around one of its parts. -/

namespace Validation

open Finding Json

section visits

variable {policy : Policy} {visit : Visitor} {name : String} {kind : FieldKind}
  {members : List (String × Json)} {value : Json} {path : Path} {G : Json → List Diagnostic}
  {level target : Nat}

/-- A branch with a reachable item is visited like any sequence. -/
theorem errors_branch_replaceAt
    (h : Reaches policy level (.sequence none) value path target) (v : Json) :
    (branch policy visit (value.replaceAt path v)).errors
      = (fieldValue policy visit (.sequence none) (value.replaceAt path v)).errors := by
  cases h with
  | @item _ _ _ items i item path _ hitem h =>
      have hne : policy.allowEmptyBranches = false → items.modify i (·.replaceAt path v) ≠ [] := by
        intro _ hnil
        rw [List.modify_eq_nil_iff] at hnil
        subst hnil
        cases hitem
      have hlength : ∀ expected, (none : Option Nat) = some expected →
          (items.modify i (·.replaceAt path v)).length = expected := nofun
      rw [replaceAt, branch_array_of_allowed hne, fieldValue_sequence hlength, errors_map]

theorem undeclared_modifyMember (declared : List String) (f : Json → Json) :
    undeclared policy declared (modifyMember name f members)
      = undeclared policy declared members := by
  have hnames : ∀ ms : List (String × Json),
      (ms.filter fun m => !declared.contains m.1).map (fun m =>
        (Defect.unexpectedField m.1).diagnostic.under (.field m.1))
      = ((ms.map (·.1)).filter fun n => !declared.contains n).map fun n =>
        (Defect.unexpectedField n).diagnostic.under (.field n) := by
    intro ms
    rw [List.filter_map, List.map_map]
    rfl
  unfold undeclared
  rw [hnames, hnames, map_fst_modifyMember]

theorem fieldValues_congr {specs : List FieldSpec} {members' : List (String × Json)}
    (h : ∀ name ∈ specs.map (·.1), member? name members' = member? name members) :
    fieldValues policy visit specs members' = fieldValues policy visit specs members := by
  induction specs with
  | nil => rw [fieldValues, fieldValues]
  | cons spec specs ih =>
      obtain ⟨name, kind⟩ := spec
      obtain ⟨hname, hspecs⟩ := List.forall_mem_cons.mp h
      rw [fieldValues, fieldValues, ih hspecs, show member? name members' = _ from hname]

theorem frames_fieldValues {specs : List FieldSpec} (hnodup : (specs.map (·.1)).Nodup)
    (hfield : (name, kind) ∈ specs) (hmember : member? name members = some value)
    (h : Frames path (fun v => (fieldValue policy visit kind (value.replaceAt path v)).errors) G) :
    Frames (.field name :: path) (fun v => (fieldValues policy visit specs
      (modifyMember name (·.replaceAt path v) members)).flatMap (·.errors)) G := by
  induction specs with
  | nil => cases hfield
  | cons spec specs ih =>
      obtain ⟨key, other⟩ := spec
      obtain ⟨hkey, hnodup⟩ := List.nodup_cons.mp hnodup
      rcases List.mem_cons.mp hfield with heq | hfield
      · cases heq
        have hrest : ∀ v, fieldValues policy visit specs
            (modifyMember name (·.replaceAt path v) members)
            = fieldValues policy visit specs members := by
          intro v
          refine fieldValues_congr fun n hn => member?_modifyMember_of_ne ?_
          rintro rfl
          exact hkey hn
        have hhead := (h.under (.field name)).append_right
          ((fieldValues policy visit specs members).flatMap (·.errors))
        simp only [fieldValues, member?_modifyMember, hmember, Option.map_some, hrest,
          List.flatMap_cons]
        exact hhead
      · have hne : key ≠ name := by
          rintro rfl
          exact hkey (List.mem_map.mpr ⟨_, hfield, rfl⟩)
        have htail := ih hnodup hfield
        simp only [fieldValues, member?_modifyMember_of_ne hne]
        cases member? key members with
        | none =>
            dsimp only
            split
            · exact htail.append _
            · exact htail
        | some _ => exact htail.append _

theorem frames_expressions {items : List Json} {i : Nat} {item : Json}
    (hitem : items[i]? = some item)
    (h : Frames path (fun v => (visit (item.replaceAt path v)).errors) G) :
    Frames (.index i :: path)
      (fun v => (expressions visit (items.modify i (·.replaceAt path v))).errors) G := by
  suffices hsteps : ∀ step : Nat → Step, Frames (step i :: path) (fun v =>
      ((items.modify i (·.replaceAt path v)).mapIdx fun j item =>
        (visit item).under (step j)).flatMap (·.errors)) G from hsteps .index
  induction items generalizing i with
  | nil => cases hitem
  | cons first items ih =>
      intro step
      cases i with
      | zero =>
          cases hitem
          simp only [List.modify_zero_cons, List.mapIdx_cons, List.flatMap_cons]
          exact (h.under (step 0)).append_right _
      | succ i =>
          simp only [List.modify_succ_cons, List.mapIdx_cons, List.flatMap_cons]
          exact (ih hitem fun j => step (j + 1)).append _

theorem frames_member {α : Type} {absent : Finding α} {visit : Json → Finding α}
    (hmember : member? name members = some value)
    (h : Frames path (fun v => (visit (value.replaceAt path v)).errors) G) :
    Frames (.field name :: path) (fun v =>
      (member name (modifyMember name (·.replaceAt path v) members) absent visit).errors) G := by
  simp only [errors_member, member?_modifyMember, hmember, Option.map_some]
  exact h.under (.field name)

theorem member_modifyMember_of_ne {α : Type} {key : String} (hkey : key ≠ name) (f : Json → Json)
    (absent : Finding α) (visit : Json → Finding α) :
    member key (modifyMember name f members) absent visit = member key members absent visit := by
  unfold member
  rw [member?_modifyMember_of_ne hkey]

theorem frames_conditional
    (hfield : (name, kind) ∈ conditionalSpecs) (hmember : member? name members = some value)
    (hreaches : Reaches policy level kind value path target)
    (h : Frames path (fun v => (fieldValue policy visit kind (value.replaceAt path v)).errors) G) :
    Frames (.field name :: path) (fun v =>
      (conditional policy visit (modifyMember name (·.replaceAt path v) members)).errors) G := by
  simp only [errors_conditional, undeclared_modifyMember]
  refine Frames.append_right _ ?_
  simp only [conditionalSpecs, List.mem_cons, Prod.mk.injEq, List.not_mem_nil, or_false] at hfield
  rcases hfield with ⟨rfl, rfl⟩ | ⟨rfl, rfl⟩ | ⟨rfl, rfl⟩ | ⟨rfl, rfl⟩
  · cases hreaches
  · simp only [fieldValue_expression, errors_map] at h
    simp only [member_modifyMember_of_ne (show "then" ≠ "if" by decide),
      member_modifyMember_of_ne (show "else" ≠ "if" by decide)]
    exact (frames_member hmember h).append_right _
  · simp only [member_modifyMember_of_ne (show "if" ≠ "then" by decide),
      member_modifyMember_of_ne (show "else" ≠ "then" by decide)]
    simp only [← errors_branch_replaceAt hreaches] at h
    exact ((frames_member hmember h).append_right _).append _
  · cases hreaches with
    | optional hreaches =>
        simp only [member_modifyMember_of_ne (show "if" ≠ "else" by decide),
          member_modifyMember_of_ne (show "then" ≠ "else" by decide)]
        simp only [fieldValue_optional, ← errors_branch_replaceAt hreaches] at h
        refine Frames.append _ (Frames.append _ (frames_member hmember ?_))
        simp only [errors_map]
        exact h

end visits

end Validation

/-! ### The walk -/

section walk

open Validation Json

variable {policy : Policy}

/-- The walk does not look for expressions in the marker of an object. -/
theorem Reaches.name_ne_function {members : List (String × Json)} {name : String}
    {kind : FieldKind} {level target : Nat} {value : Json} {path : Path}
    (h : Reaches policy level kind value path target)
    (hfield : (name, kind) ∈ nodeSpecs members) : name ≠ "function" := by
  rintro rfl
  have htext : kind ≠ .text := by
    rintro rfl
    cases h
  rcases marker_cases members with hf | ⟨contract, hcontract, hf⟩ | ⟨hconditional, hcall⟩
  · rw [nodeSpecs_conditional hf] at hfield
    simp [conditionalSpecs] at hfield
    exact htext hfield
  · rw [nodeSpecs_call hcontract hf] at hfield
    rcases List.mem_cons.mp hfield with heq | hfield
    · exact htext (Prod.mk.inj heq).2
    · have hmem : "function" ∈ contract.fieldNames := List.mem_map.mpr ⟨_, hfield, rfl⟩
      exact Catalog.function_not_mem_fieldNames hcontract hmem
  · rw [nodeSpecs_other hconditional hcall] at hfield
    cases hfield

/-- **The frame of an expression.**  Below an expression at a level, the diagnostics of what
stands at a reachable path are in the middle of others that do not depend on it. -/
theorem Reaches.frames {level target : Nat} {kind : FieldKind} {value : Json} {path : Path}
    (h : Reaches policy level kind value path target) (hkind : kind.WellNamed = true) :
    Frames path (fun v => (fieldValue policy (expression policy (policy.maxDepth - level)) kind
        (value.replaceAt path v)).errors)
      (fun v => (expression policy (policy.maxDepth - (target - 1)) v).errors) := by
  induction h with
  | here =>
      simp only [fieldValue_expression, Finding.errors_map, replaceAt, Nat.add_sub_cancel]
      exact Frames.refl _
  | @inside level target members name kind value path hlevel hfield hmember h ih =>
      have hframe := ih ((wellNamed_nodeSpecs members).kind_of_mem hfield)
      have hne : "function" ≠ name := (h.name_ne_function hfield).symm
      have hbudget : policy.maxDepth - level = policy.maxDepth - (level + 1) + 1 := by omega
      have hvisit : ∀ v, (fieldValue policy (expression policy (policy.maxDepth - level)) .expression
          ((Json.object members).replaceAt (.field name :: path) v)).errors
          = (object policy (expression policy (policy.maxDepth - (level + 1)))
              (modifyMember name (·.replaceAt path v) members)).errors := by
        intro v
        rw [fieldValue_expression, hbudget, replaceAt]
        rfl
      have hmarker : ∀ v, member? "function" (modifyMember name (·.replaceAt path v) members)
          = member? "function" members := fun _ => member?_modifyMember_of_ne hne
      simp only [hvisit]
      rcases marker_cases members with hf | ⟨contract, hcontract, hf⟩ | ⟨hconditional, hcall⟩
      · simp only [object_conditional ((hmarker _).trans hf), Finding.errors_map]
        rw [nodeSpecs_conditional hf] at hfield
        exact frames_conditional hfield hmember h hframe
      · simp only [object_call hcontract ((hmarker _).trans hf), errors_call,
          undeclared_modifyMember]
        rw [nodeSpecs_call hcontract hf] at hfield
        rcases List.mem_cons.mp hfield with heq | hfield
        · exact absurd (Prod.mk.inj heq).1.symm hne
        · have hnodup := (Catalog.wellNamed_fields hcontract).1
          exact (frames_fieldValues hnodup hfield hmember hframe).append_right _
      · rw [nodeSpecs_other hconditional hcall] at hfield
        cases hfield
  | @item level target length items i item path hlength hitem h ih =>
      have hlength' : ∀ v expected, length = some expected →
          (items.modify i (·.replaceAt path v)).length = expected := by
        intro v expected h
        rw [List.length_modify, hlength expected h]
      have hframe := ih rfl
      simp only [fieldValue_expression, Finding.errors_map] at hframe
      simp only [replaceAt, fieldValue_sequence (hlength' _), Finding.errors_map]
      exact frames_expressions hitem hframe
  | shape hfield hmember h ih =>
      have hspecs := WellNamed.shape hkind
      have hframe := ih (hspecs.kind_of_mem hfield)
      simp only [replaceAt, fieldValue_shape, Finding.errors_followedBy, Finding.errors_map,
        Finding.errors_gather, undeclared_modifyMember]
      exact (frames_fieldValues hspecs.1 hfield hmember hframe).append_right _
  | optional h ih =>
      simp only [fieldValue_optional]
      exact ih (WellNamed.optional hkind)

/-- **The frame of a document.** -/
theorem Dispatches.frames {document : Json} {path : Path} {level : Nat}
    (h : Dispatches policy document path level) :
    Frames path (fun v => (strategy policy (document.replaceAt path v)).errors)
      (fun v => (expression policy (policy.maxDepth - (level - 1)) v).errors) := by
  cases h with
  | @intro level members root name kind value path hstrategy hfunction hfield hmember h =>
      have hspecs := nodeSpecs_conditional hfunction ▸ wellNamed_nodeSpecs root
      have hframe := h.frames (hspecs.kind_of_mem hfield)
      have hne := h.name_ne_function (nodeSpecs_conditional hfunction ▸ hfield)
      have hroot : Frames (.field name :: path) (fun v =>
          (Validation.root policy ((object root).replaceAt (.field name :: path) v)).errors)
          (fun v => (expression policy (policy.maxDepth - (level - 1)) v).errors) := by
        have hmarker : ∀ v, member? "function" (modifyMember name (·.replaceAt path v) root)
            = some (.string conditionalWord) :=
          fun _ => (member?_modifyMember_of_ne hne.symm).trans hfunction
        simp only [replaceAt, root_conditional (hmarker _)]
        exact frames_conditional hfield hmember h hframe
      simp only [replaceAt, Validation.errors_strategy, undeclared_modifyMember,
        member_modifyMember_of_ne (show "name" ≠ "strategy" by decide),
        member_modifyMember_of_ne (show "author" ≠ "strategy" by decide)]
      exact (((frames_member hstrategy hroot).append _).append _).append_right _

end walk

end StrategyDoc
