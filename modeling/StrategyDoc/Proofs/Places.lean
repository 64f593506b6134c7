import StrategyDoc.Proofs.Justification

/-! # Shapes and slots

The objects that a document may have are described by contracts, and by the shapes inside
contracts.  Wherever the walk comes from the root of a document, a shape is one of the catalog
(`Place.Leads.mem_shapes`), so what holds of the few shapes there holds at every place: the
slots of an object have different names (`Declares.nodup_names`). -/

namespace StrategyDoc

/-! ### Shapes -/

mutual

/-- The fields of the objects that a kind describes. -/
def FieldKind.shapes : FieldKind → List (List FieldSpec)
  | .shape specs => specs :: FieldKind.shapesIn specs
  | .optional inner => inner.shapes
  | _ => []

def FieldKind.shapesIn : List (String × FieldKind) → List (List FieldSpec)
  | [] => []
  | (_, kind) :: rest => kind.shapes ++ FieldKind.shapesIn rest

end

/-- The fields of the objects inside calls. -/
def Catalog.shapes : List (List FieldSpec) :=
  all.flatMap fun contract => FieldKind.shapesIn contract.fields

namespace FieldKind

variable {kind : FieldKind} {specs shape : List FieldSpec}

theorem shapes_shape : (FieldKind.shape specs).shapes = specs :: shapesIn specs := by
  rw [shapes]

theorem shapes_bare (kind : FieldKind) : kind.bare.shapes = kind.shapes := by
  induction kind using FieldKind.bare.induct with
  | case1 inner ih =>
      rw [bare_optional, ih, shapes]
  | case2 kind h => rw [FieldKind.bare.eq_2 kind h]

theorem mem_shapesIn {spec : FieldSpec} (hspec : spec ∈ specs) (h : shape ∈ spec.2.shapes) :
    shape ∈ shapesIn specs := by
  induction specs with
  | nil => cases hspec
  | cons first specs ih =>
      rw [shapesIn]
      rcases List.mem_cons.mp hspec with rfl | hspec
      · exact List.mem_append_left _ h
      · exact List.mem_append_right _ (ih hspec)

end FieldKind

namespace Catalog

variable {specs : List FieldSpec}

theorem mem_shapes {contract : Contract} (hcontract : contract ∈ all)
    (h : specs ∈ FieldKind.shapesIn contract.fields) : specs ∈ shapes :=
  List.mem_flatMap.mpr ⟨contract, hcontract, h⟩

theorem nodup_names_of_mem_shapes (h : specs ∈ shapes) : (specs.map (·.1)).Nodup := by
  have hall : ∀ specs ∈ shapes, (specs.map (·.1)).Nodup := by decide +kernel
  exact hall specs h

end Catalog

namespace Validation

/-- The wrappers of a kind make no difference to a visit. -/
theorem fieldValue_bare {policy : Policy} {visit : Visitor} (kind : FieldKind) (value : Json) :
    fieldValue policy visit kind.bare value = fieldValue policy visit kind value := by
  induction kind using FieldKind.bare.induct with
  | case1 inner ih =>
      rw [fieldValue_optional]
      exact ih
  | case2 kind h => rw [FieldKind.bare.eq_2 kind h]

end Validation

/-! ### Slots -/

/-- What is asked for has no shapes but those of the catalog. -/
def Role.InCatalog (role : Role) : Prop :=
  role = .document ∨ ∀ specs ∈ role.kind.shapes, specs ∈ Catalog.shapes

theorem Role.InCatalog.of_shapes_eq_nil {role : Role} (h : role.kind.shapes = []) :
    role.InCatalog := by
  refine .inr ?_
  rw [h]
  exact List.forall_mem_nil _

section slots

variable {role : Role} {members : List (String × Json)} {slots : List Slot}

theorem Declares.inCatalog (h : Declares role members slots) (hrole : role.InCatalog) {slot : Slot}
    (hslot : slot ∈ slots) : slot.role.InCatalog := by
  have hspecs : ∀ {specs : List FieldSpec}, (∀ shape ∈ FieldKind.shapesIn specs,
      shape ∈ Catalog.shapes) → slot ∈ specs.map Slot.ofSpec → slot.role.InCatalog := by
    rintro specs hshapes hslot
    obtain ⟨spec, hspec, rfl⟩ := List.mem_map.mp hslot
    refine .inr fun shape hshape => hshapes shape (FieldKind.mem_shapesIn hspec ?_)
    rw [← FieldKind.shapes_bare]
    exact hshape
  cases h with
  | document =>
      simp only [documentSlots, List.mem_cons, List.not_mem_nil, or_false] at hslot
      rcases hslot with rfl | rfl | rfl <;> exact .of_shapes_eq_nil rfl
  | conditional =>
      simp only [conditionalSlots, List.mem_cons, List.not_mem_nil, or_false] at hslot
      rcases hslot with rfl | rfl | rfl | rfl <;> exact .of_shapes_eq_nil rfl
  | call hcontract =>
      rcases List.mem_cons.mp hslot with rfl | hslot
      · exact .of_shapes_eq_nil rfl
      · exact hspecs (fun shape hshape => Catalog.mem_shapes hcontract hshape) hslot
  | @shape _ specs =>
      rcases hrole with hrole | hrole
      · cases hrole
      · refine hspecs (fun shape hshape => hrole shape ?_) hslot
        rw [Role.kind, FieldKind.shapes_shape]
        exact .tail _ hshape

theorem Declares.role_ne_text (h : Declares role members slots) : role ≠ .field .text := by
  rintro rfl
  cases h with
  | conditional hkind => cases hkind

theorem Declares.nodup_names (h : Declares role members slots) (hrole : role.InCatalog) :
    (slots.map (·.name)).Nodup := by
  cases h with
  | document =>
      show ["name", "author", "strategy"].Nodup
      decide
  | conditional =>
      show ["function", "if", "then", "else"].Nodup
      decide
  | call hcontract hfunction =>
      rw [Validation.map_name_ofSpec, ← Json.nodeSpecs_call hcontract hfunction]
      exact (Json.wellNamed_nodeSpecs members).1
  | @shape _ specs =>
      rw [Validation.map_name_ofSpec]
      rcases hrole with hrole | hrole
      · cases hrole
      · refine Catalog.nodup_names_of_mem_shapes (hrole specs ?_)
        rw [Role.kind, FieldKind.shapes_shape]
        exact .head _

end slots

/-! ### Places -/

namespace Place

variable {start target : Place} {path : Path}

/-- Along a path, no shapes come up but those of the catalog. -/
theorem Leads.inCatalog (h : start.Leads path target) (hstart : start.role.InCatalog) :
    target.role.InCatalog := by
  induction h with
  | here => exact hstart
  | item _ _ _ ih => exact ih (.of_shapes_eq_nil rfl)
  | field hslots hslot _ _ ih => exact ih (hslots.inCatalog hstart hslot)
  | marker _ _ ih => exact ih (.of_shapes_eq_nil rfl)

/-- **Shapes are those of the catalog.** -/
theorem Leads.mem_shapes {document value : Json} {level : Nat} {specs : List FieldSpec}
    (h : Leads ⟨1, .document, document⟩ path ⟨level, .field (.shape specs), value⟩) :
    specs ∈ Catalog.shapes := by
  rcases h.inCatalog (.inl rfl) with hrole | hrole
  · cases hrole
  · refine hrole specs ?_
    rw [Role.kind, FieldKind.shapes_shape]
    exact .head _

theorem Leads.eq_of_text (h : start.Leads path target) (hstart : start.role = .field .text) :
    path = [] ∧ start = target := by
  cases h with
  | here => exact ⟨rfl, rfl⟩
  | item hrole =>
      cases hstart
      cases hrole
  | field hslots => exact absurd hstart hslots.role_ne_text
  | marker => cases hstart

end Place

end StrategyDoc
