import StrategyDoc.Proofs.Representation
import StrategyDoc.Proofs.SortedForm
import StrategyDoc.Strategy.Encoding

/-! # Conformant strategies

A strategy is conformant if each of its calls is one that the catalog describes
(`Expression.Conformant`).  Only conformant strategies are read (`Represents.conformant`,
`Strategy.conformant_of_ofJson?`), and what a conformant strategy is written as represents it
(`Expression.Conformant.represents`), so that reading it back can fail for the limits of the
policy alone. -/

namespace StrategyDoc

/-! ### The property -/

mutual

/-- Every call inside is one that the catalog describes. -/
inductive Expression.Conformant : Expression → Prop
  | number (n : Json.Number) : Expression.Conformant (.number n)
  | call {contract : Contract} {fields : List (String × FieldValue)}
      (hcontract : contract ∈ Catalog.all) (hfields : FieldsConform contract.fields fields) :
      Expression.Conformant (.call contract.name fields)
  | conditional {condition : Expression} {thenBranch : List Expression}
      {elseBranch : Option (List Expression)} (hcondition : Expression.Conformant condition)
      (hthen : ∀ e ∈ thenBranch, Expression.Conformant e)
      (helse : ∀ es, elseBranch = some es → ∀ e ∈ es, Expression.Conformant e) :
      Expression.Conformant (.conditional condition thenBranch elseBranch)

/-- The field value is what the kind asks for. -/
inductive FieldValue.Conforms : FieldKind → FieldValue → Prop
  | expression {e : Expression} (h : Expression.Conformant e) :
      FieldValue.Conforms .expression (.expression e)
  | sequence {length : Option Nat} {es : List Expression}
      (hlength : ∀ expected, length = some expected → es.length = expected)
      (hitems : ∀ e ∈ es, Expression.Conformant e) :
      FieldValue.Conforms (.sequence length) (.sequence es)
  | choice {allowed : List String} {s : String} (h : s ∈ allowed) :
      FieldValue.Conforms (.oneOf allowed) (.choice s)
  | text (s : String) : FieldValue.Conforms .text (.text s)
  | identifier {s : String} (h : IsVariableName s) : FieldValue.Conforms .identifier (.text s)
  | shape {specs : List FieldSpec} {fields : List (String × FieldValue)}
      (h : FieldsConform specs fields) : FieldValue.Conforms (.shape specs) (.shape fields)
  | optional {inner : FieldKind} {v : FieldValue} (h : FieldValue.Conforms inner v) :
      FieldValue.Conforms (.optional inner) v

/-- The fields are some of those declared, in order and without repetition, among them all
required ones, and each is what its kind asks for. -/
inductive FieldsConform : List FieldSpec → List (String × FieldValue) → Prop
  | intro {specs : List FieldSpec} {fields : List (String × FieldValue)}
      (horder : (fields.map (·.1)).Sublist (specs.map (·.1)))
      (hnodup : (fields.map (·.1)).Nodup)
      (hrequired : ∀ spec ∈ specs, spec.2.isRequired = true → spec.1 ∈ fields.map (·.1))
      (hvalues : ∀ spec ∈ specs, ∀ f ∈ fields, f.1 = spec.1 → FieldValue.Conforms spec.2 f.2) :
      FieldsConform specs fields

end

/-- Every call in the strategy is one that the catalog describes. -/
def Strategy.Conformant (s : Strategy) : Prop := s.root.toExpression.Conformant

/-! ### What is read -/

section read

variable {strict : Bool} {specs : List FieldSpec} {fields : List (String × FieldValue)}

theorem FieldsConform.nil : FieldsConform [] [] :=
  .intro (List.Sublist.refl _) List.nodup_nil nofun nofun

theorem FieldsConform.skip {name : String} {kind : FieldKind}
    (hname : name ∉ specs.map (·.1)) (hoptional : ¬ kind.isRequired = true)
    (h : FieldsConform specs fields) : FieldsConform ((name, kind) :: specs) fields := by
  obtain ⟨horder, hnodup, hrequired, hvalues⟩ := h
  refine .intro (horder.cons name) hnodup ?_ ?_
  · rw [List.forall_mem_cons]
    exact ⟨fun h => absurd h hoptional, hrequired⟩
  · rw [List.forall_mem_cons]
    refine ⟨fun f hf heq => ?_, hvalues⟩
    have hmem : f.1 ∈ fields.map (·.1) := List.mem_map_of_mem hf
    rw [show f.1 = name from heq] at hmem
    exact absurd (horder.subset hmem) hname

theorem FieldsConform.take {name : String} {kind : FieldKind} {v : FieldValue}
    (hname : name ∉ specs.map (·.1)) (hv : FieldValue.Conforms kind v)
    (h : FieldsConform specs fields) :
    FieldsConform ((name, kind) :: specs) ((name, v) :: fields) := by
  obtain ⟨horder, hnodup, hrequired, hvalues⟩ := h
  have hfresh : name ∉ fields.map (·.1) := fun h => hname (horder.subset h)
  refine .intro (horder.cons_cons name) (List.nodup_cons.mpr ⟨hfresh, hnodup⟩) ?_ ?_
  · rw [List.forall_mem_cons]
    refine ⟨fun _ => List.mem_cons_self, fun spec hspec h => ?_⟩
    exact List.mem_cons_of_mem _ (hrequired spec hspec h)
  · intro spec hspec f hf heq
    rcases List.mem_cons.mp hspec with rfl | hspec
    · rcases List.mem_cons.mp hf with rfl | hf
      · exact hv
      · have hmem : f.1 ∈ fields.map (·.1) := List.mem_map_of_mem hf
        rw [show f.1 = name from heq] at hmem
        exact absurd hmem hfresh
    · rcases List.mem_cons.mp hf with rfl | hf
      · have hmem : spec.1 ∈ specs.map (·.1) := List.mem_map_of_mem hspec
        rw [show spec.1 = name from heq.symm] at hmem
        exact absurd hmem hname
      · exact hvalues spec hspec f hf heq

theorem FieldsConform.sublist : FieldsConform specs fields →
    (fields.map (·.1)).Sublist (specs.map (·.1))
  | .intro horder _ _ _ => horder

theorem FieldsConform.nodup : FieldsConform specs fields → (fields.map (·.1)).Nodup
  | .intro _ hnodup _ _ => hnodup

theorem ItemsRepresent.length_eq {items : List Json} {es : List Expression} :
    ItemsRepresent strict items es → items.length = es.length
  | .nil => rfl
  | .cons _ hitems => congrArg (· + 1) hitems.length_eq

mutual

/-- Only conformant expressions are read. -/
theorem Represents.conformant {value : Json} {e : Expression} :
    Represents strict value e → e.Conformant
  | .number => .number _
  | .call hcontract _ hfields _ =>
      .call hcontract (hfields.conform (Catalog.wellNamed_fields hcontract))
  | .conditional _ _ hcondition _ hthen helse _ =>
      .conditional hcondition.conformant hthen.conformant helse.conformant

theorem ItemsRepresent.conformant {items : List Json} {es : List Expression} :
    ItemsRepresent strict items es → ∀ e ∈ es, e.Conformant
  | .nil => nofun
  | .cons hitem hitems =>
      List.forall_mem_cons.mpr ⟨hitem.conformant, hitems.conformant⟩

theorem ElseRepresents.conformant {value : Option Json} {branch : Option (List Expression)} :
    ElseRepresents strict value branch → ∀ es, branch = some es → ∀ e ∈ es, e.Conformant
  | .absent => nofun
  | .present hitems => fun _ h => Option.some.inj h ▸ hitems.conformant

theorem FieldRepresents.conforms {kind : FieldKind} {value : Json} {v : FieldValue}
    (hkind : kind.WellNamed = true) : FieldRepresents strict kind value v → v.Conforms kind
  | .expression h => .expression h.conformant
  | .sequence hlength hitems =>
      .sequence (fun n hn => hitems.length_eq ▸ hlength n hn) hitems.conformant
  | .choice h => .choice h
  | .text => .text _
  | .identifier h => .identifier h
  | .shape hfields _ => .shape (hfields.conform (WellNamed.shape hkind))
  | .optional h => .optional (h.conforms (WellNamed.optional hkind))

theorem FieldsRepresent.conform {members : List (String × Json)} {specs : List FieldSpec}
    {fields : List (String × FieldValue)} (hspecs : WellNamed specs) :
    FieldsRepresent strict specs members fields → FieldsConform specs fields
  | .nil => .nil
  | .skip _ hoptional hfields => .skip hspecs.not_mem_tail hoptional (hfields.conform hspecs.tail)
  | .take _ hvalue hfields =>
      .take hspecs.not_mem_tail (hvalue.conforms hspecs.head) (hfields.conform hspecs.tail)

end

theorem DocumentRepresents.conformant {document : Json} {s : Strategy} :
    DocumentRepresents strict document s → s.Conformant
  | .intro _ _ _ hroot _ => hroot.conformant

/-- Only conformant strategies are read. -/
theorem Strategy.conformant_of_ofJson? {policy : Policy} {document : Json} {s : Strategy}
    (h : ofJson? policy document = .ok s) : s.Conformant :=
  (ofJson?_eq_ok_iff.mp h).1.conformant

end read

/-! ### What is written -/

theorem FieldValue.find?_eq_none {name : String} {fields : List (String × FieldValue)}
    (h : name ∉ fields.map (·.1)) : find? name fields = none := by
  induction fields with
  | nil => rfl
  | cons f fields ih =>
      obtain ⟨key, v⟩ := f
      obtain ⟨hkey, hfields⟩ := not_or.mp fun hmem => h (List.mem_cons.mpr hmem)
      rw [find?, if_neg (Ne.symm hkey), ih hfields]

theorem FieldValue.map_fst_membersOf (fields : List (String × FieldValue)) :
    (membersOf fields).map (·.1) = fields.map (·.1) := by
  induction fields with
  | nil => rfl
  | cons f fields ih => rw [membersOf, List.map_cons, List.map_cons, ih]

theorem FieldValue.member?_membersOf (name : String) (fields : List (String × FieldValue)) :
    Json.member? name (membersOf fields) = (find? name fields).map toJson := by
  induction fields with
  | nil => rfl
  | cons f fields ih =>
      obtain ⟨key, v⟩ := f
      rw [membersOf, Json.member?_cons, find?, ih]
      by_cases hkey : key = name
      · rw [if_pos hkey, if_pos hkey]
        rfl
      · rw [if_neg hkey, if_neg hkey]

/-- An absent branch is left out. -/
theorem Expression.toJson_conditional (condition : Expression) (thenBranch : List Expression)
    (elseBranch : Option (List Expression)) :
    (conditional condition thenBranch elseBranch).toJson = .object (
      ("function", .string conditionalWord) :: ("if", condition.toJson)
        :: ("then", .array (itemsOf thenBranch))
        :: ((elseBranch.map fun es => Json.array (itemsOf es)).map fun v => ("else", v)).toList) := by
  cases elseBranch with
  | none => rw [toJson, Option.map_none, Option.map_none, Option.toList_none]
  | some es => rw [toJson, Option.map_some, Option.map_some, Option.toList_some]

theorem Expression.nodup_conditional (marker condition thenBranch : Json)
    (elseBranch : Option Json) :
    ((("function", marker) :: ("if", condition) :: ("then", thenBranch)
      :: (elseBranch.map fun v => ("else", v)).toList).map (·.1)).Nodup := by
  cases elseBranch with
  | none =>
      show ["function", "if", "then"].Nodup
      decide
  | some _ =>
      show ["function", "if", "then", "else"].Nodup
      decide

theorem Expression.mem_conditionalFields (marker condition thenBranch : Json)
    (elseBranch : Option Json) :
    ∀ name ∈ (("function", marker) :: ("if", condition) :: ("then", thenBranch)
      :: (elseBranch.map fun v => ("else", v)).toList).map (·.1),
      name ∈ Validation.conditionalFields := by
  cases elseBranch with
  | none =>
      show ∀ name ∈ ["function", "if", "then"], name ∈ Validation.conditionalFields
      decide
  | some _ =>
      show ∀ name ∈ ["function", "if", "then", "else"], name ∈ Validation.conditionalFields
      decide

section written

variable {strict : Bool} {specs : List FieldSpec} {members : List (String × Json)}
  {fields : List (String × FieldValue)}

/-- Members under which the fields are found in written form represent the fields. -/
theorem FieldsRepresent.of_member? (hnodup : (specs.map (·.1)).Nodup)
    (horder : (fields.map (·.1)).Sublist (specs.map (·.1)))
    (hrequired : ∀ spec ∈ specs, spec.2.isRequired = true → spec.1 ∈ fields.map (·.1))
    (hmembers : ∀ name ∈ specs.map (·.1),
      Json.member? name members = (FieldValue.find? name fields).map (·.toJson.sort))
    (hvalues : ∀ spec ∈ specs, ∀ f ∈ fields, f.1 = spec.1 →
      FieldRepresents strict spec.2 f.2.toJson.sort f.2) :
    FieldsRepresent strict specs members fields := by
  induction specs generalizing fields with
  | nil =>
      cases List.map_eq_nil_iff.mp (List.sublist_nil.mp horder)
      exact .nil
  | cons spec specs ih =>
      obtain ⟨name, kind⟩ := spec
      obtain ⟨hname, htail⟩ := List.nodup_cons.mp hnodup
      obtain ⟨hhead, hmembersTail⟩ := List.forall_mem_cons.mp hmembers
      obtain ⟨hkind, hrequiredTail⟩ := List.forall_mem_cons.mp hrequired
      rcases List.sublist_cons_iff.mp horder with hrest | ⟨names, heq, hrest⟩
      · have hfresh : name ∉ fields.map (·.1) := fun h => hname (hrest.subset h)
        rw [FieldValue.find?_eq_none hfresh] at hhead
        refine .skip hhead (fun h => hfresh (hkind h))
          (ih htail hrest hrequiredTail hmembersTail ?_)
        exact fun spec hspec => hvalues spec (List.mem_cons_of_mem _ hspec)
      · obtain ⟨f, rest, rfl, hf, rfl⟩ := List.map_eq_cons_iff.mp heq
        obtain ⟨key, v⟩ := f
        subst hf
        rw [FieldValue.find?, if_pos rfl] at hhead
        have hv := hvalues (key, kind) List.mem_cons_self (key, v) List.mem_cons_self rfl
        refine .take hhead hv (ih htail hrest ?_ ?_ ?_)
        · intro spec hspec h
          rcases List.mem_cons.mp (hrequiredTail spec hspec h) with heq | hmem
          · exact absurd (heq ▸ List.mem_map_of_mem hspec) hname
          · exact hmem
        · intro other hother
          have hne : key ≠ other := by
            rintro rfl
            exact hname hother
          rw [hmembersTail other hother, FieldValue.find?, if_neg hne]
        · intro spec hspec f hf
          exact hvalues spec (List.mem_cons_of_mem _ hspec) f (List.mem_cons_of_mem _ hf)

theorem ItemsRepresent.of_forall {es : List Expression}
    (h : ∀ e ∈ es, Represents strict e.toJson.sort e) :
    ItemsRepresent strict (Json.sortItems (Expression.itemsOf es)) es := by
  induction es with
  | nil => exact .nil
  | cons e es ih =>
      obtain ⟨he, hes⟩ := List.forall_mem_cons.mp h
      exact .cons he (ih hes)

/-- Sorting adds no members. -/
theorem OnlyDeclared.sort {declared : List String}
    (h : ∀ name ∈ members.map (·.1), name ∈ declared) :
    OnlyDeclared strict declared (Json.ofEntries (Json.sortMembers members)) :=
  fun _ m hm => h m.1 (Json.mem_map_fst_of_mem_sort hm)

theorem Represents.toJson_conditional {condition : Expression} {thenBranch : List Expression}
    {elseBranch : Option (List Expression)}
    (hcondition : Represents strict condition.toJson.sort condition)
    (hthen : ∀ e ∈ thenBranch, Represents strict e.toJson.sort e)
    (helse : ∀ es, elseBranch = some es → ∀ e ∈ es, Represents strict e.toJson.sort e) :
    Represents strict (Expression.conditional condition thenBranch elseBranch).toJson.sort
      (.conditional condition thenBranch elseBranch) := by
  rw [Expression.toJson_conditional]
  have hfound := Json.member?_sort (Expression.nodup_conditional (.string conditionalWord)
    condition.toJson (.array (Expression.itemsOf thenBranch))
    (elseBranch.map fun es => .array (Expression.itemsOf es)))
  refine .conditional (hfound _) (hfound _) hcondition (hfound _) (.of_forall hthen) ?_ ?_
  · rw [hfound]
    cases elseBranch with
    | none => exact .absent
    | some es => exact .present (.of_forall (helse es rfl))
  · exact OnlyDeclared.sort (Expression.mem_conditionalFields _ _ _ _)

theorem FieldValue.nodup_call {contract : Contract} (hcontract : contract ∈ Catalog.all)
    (horder : (fields.map (·.1)).Sublist contract.fieldNames)
    (hnodup : (fields.map (·.1)).Nodup) (marker : Json) :
    ((("function", marker) :: membersOf fields).map (·.1)).Nodup := by
  rw [List.map_cons, map_fst_membersOf]
  have hmarker := Catalog.function_not_mem_fieldNames hcontract
  exact List.nodup_cons.mpr ⟨fun h => hmarker (horder.subset h), hnodup⟩

theorem Represents.toJson_call {contract : Contract} (hcontract : contract ∈ Catalog.all)
    (horder : (fields.map (·.1)).Sublist contract.fieldNames)
    (hnodup : (fields.map (·.1)).Nodup)
    (hfields : ∀ members, (∀ name ∈ contract.fieldNames,
        Json.member? name members = (FieldValue.find? name fields).map (·.toJson.sort)) →
      FieldsRepresent strict contract.fields members fields) :
    Represents strict (Expression.call contract.name fields).toJson.sort
      (.call contract.name fields) := by
  have hmarker := Catalog.function_not_mem_fieldNames hcontract
  have hfound := Json.member?_sort (FieldValue.nodup_call hcontract horder hnodup
    (.string contract.name))
  refine .call hcontract (hfound _) (hfields _ ?_) ?_
  · intro name hname
    have hne : "function" ≠ name := by
      rintro rfl
      exact hmarker hname
    rw [hfound, Json.member?_cons, if_neg hne, FieldValue.member?_membersOf, Option.map_map]
    rfl
  · apply OnlyDeclared.sort
    rw [List.map_cons, FieldValue.map_fst_membersOf]
    exact (horder.cons_cons "function").subset

theorem FieldRepresents.toJson_shape (horder : (fields.map (·.1)).Sublist (specs.map (·.1)))
    (hnodup : (fields.map (·.1)).Nodup)
    (hfields : ∀ members, (∀ name ∈ specs.map (·.1),
        Json.member? name members = (FieldValue.find? name fields).map (·.toJson.sort)) →
      FieldsRepresent strict specs members fields) :
    FieldRepresents strict (.shape specs) (FieldValue.shape fields).toJson.sort
      (.shape fields) := by
  have hnames := FieldValue.map_fst_membersOf fields
  have hfound := Json.member?_sort (hnames ▸ hnodup)
  refine .shape (hfields _ ?_) ?_
  · intro name _
    rw [hfound, FieldValue.member?_membersOf, Option.map_map]
    rfl
  · apply OnlyDeclared.sort
    rw [hnames]
    exact horder.subset

mutual

/-- What a conformant expression is written as represents it. -/
theorem Expression.Conformant.represents {e : Expression} :
    e.Conformant → Represents strict e.toJson.sort e
  | .number _ => .number
  | .call hcontract hfields =>
      .toJson_call hcontract hfields.sublist hfields.nodup fun _ hmembers =>
        hfields.represents (Catalog.wellNamed_fields hcontract) hmembers
  | .conditional hcondition hthen helse =>
      .toJson_conditional hcondition.represents (fun e he => (hthen e he).represents)
        fun es hes e he => (helse es hes e he).represents

theorem FieldValue.Conforms.represents {kind : FieldKind} {v : FieldValue}
    (hkind : kind.WellNamed = true) :
    v.Conforms kind → FieldRepresents strict kind v.toJson.sort v
  | .expression h => .expression h.represents
  | .sequence hlength hitems => by
      have hrepresent := ItemsRepresent.of_forall fun e he => (hitems e he).represents
      exact .sequence (fun n hn => hrepresent.length_eq.trans (hlength n hn)) hrepresent
  | .choice h => .choice h
  | .text _ => .text
  | .identifier h => .identifier h
  | .shape hfields =>
      .toJson_shape hfields.sublist hfields.nodup fun _ hmembers =>
        hfields.represents (WellNamed.shape hkind) hmembers
  | .optional h => .optional (h.represents (WellNamed.optional hkind))

theorem FieldsConform.represents {members : List (String × Json)} {specs : List FieldSpec}
    {fields : List (String × FieldValue)} (hspecs : WellNamed specs)
    (hmembers : ∀ name ∈ specs.map (·.1),
      Json.member? name members = (FieldValue.find? name fields).map (·.toJson.sort)) :
    FieldsConform specs fields → FieldsRepresent strict specs members fields
  | .intro horder _ hrequired hvalues =>
      .of_member? hspecs.1 horder hrequired hmembers fun spec hspec f hf heq =>
        (hvalues spec hspec f hf heq).represents (hspecs.kind_of_mem hspec)

end

end written

end StrategyDoc
