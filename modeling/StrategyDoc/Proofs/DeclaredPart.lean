import StrategyDoc.Proofs.Conformance

/-! # The declared part of a document

`Json.declaredPart` removes the undeclared members from a document, wherever the catalog says
what is declared, and leaves everything else as it is.  It follows the kinds of the fields and
knows neither diagnostics nor strategies.

A strategy that was read from a document is written as the declared part of that document
(`Strategy.sort_toJson_eq_declaredPart`): reading loses nothing that is declared.  Under a strict
policy the declared part is the whole document. -/

namespace StrategyDoc

/-! ### Removing undeclared members -/

namespace Json

mutual

/-- The value without the members that are undeclared where the kind is asked for. -/
def declared (kind : FieldKind) : Json → Json
  | .array items =>
    match kind.bare with
    | .sequence _ => .array (declaredItems items)
    | _ => .array items
  | .object members =>
    match kind.bare with
    | .expression => .object (declaredMembers (nodeSpecs members) members)
    | .shape specs => .object (declaredMembers specs members)
    | _ => .object members
  | value => value

def declaredItems : List Json → List Json
  | [] => []
  | item :: rest => item.declared .expression :: declaredItems rest

def declaredMembers (specs : List FieldSpec) : List (String × Json) → List (String × Json)
  | [] => []
  | (name, value) :: rest =>
    match FieldKind.find? name specs with
    | none => declaredMembers specs rest
    | some kind => (name, value.declared kind) :: declaredMembers specs rest

end

/-- The document without the members that are not part of it. -/
def declaredPart (document : Json) : Json := document.declared (.shape documentSpecs)

section pruning

variable {specs : List FieldSpec} {members : List (String × Json)}

theorem declared_optional (inner : FieldKind) (value : Json) :
    value.declared (.optional inner) = value.declared inner := by
  cases value <;> simp only [declared, FieldKind.bare_optional]

theorem member?_declaredMembers (name : String) :
    member? name (declaredMembers specs members)
      = (FieldKind.find? name specs).bind fun kind =>
          (member? name members).map (declared kind) := by
  induction members with
  | nil =>
      rw [declaredMembers, member?_nil]
      cases FieldKind.find? name specs <;> rfl
  | cons m members ih =>
      obtain ⟨key, value⟩ := m
      rw [declaredMembers, member?_cons]
      by_cases hkey : key = name
      · subst hkey
        cases hkind : FieldKind.find? key specs with
        | none =>
            rw [hkind] at ih
            exact ih
        | some kind =>
            dsimp only
            rw [member?_cons, if_pos rfl, if_pos rfl]
            rfl
      · rw [if_neg hkey, ← ih]
        cases FieldKind.find? key specs with
        | none => rfl
        | some kind =>
            dsimp only
            rw [member?_cons, if_neg hkey]

theorem mem_map_fst_declaredMembers {m : String × Json} (h : m ∈ declaredMembers specs members) :
    m.1 ∈ members.map (·.1) := by
  induction members with
  | nil => cases h
  | cons first members ih =>
      obtain ⟨key, value⟩ := first
      rw [declaredMembers] at h
      split at h
      · exact List.mem_cons_of_mem _ (ih h)
      · rcases List.mem_cons.mp h with rfl | h
        · exact List.mem_cons_self
        · exact List.mem_cons_of_mem _ (ih h)

theorem pairwise_declaredMembers (specs : List FieldSpec)
    (h : members.Pairwise fun a b => a.1 < b.1) :
    (declaredMembers specs members).Pairwise fun a b => a.1 < b.1 := by
  induction members with
  | nil => exact .nil
  | cons first members ih =>
      obtain ⟨key, value⟩ := first
      obtain ⟨hfirst, hmembers⟩ := List.pairwise_cons.mp h
      rw [declaredMembers]
      split
      · exact ih hmembers
      · refine List.pairwise_cons.mpr ⟨fun m hm => ?_, ih hmembers⟩
        obtain ⟨m', hm', heq⟩ := List.mem_map.mp (mem_map_fst_declaredMembers hm)
        rw [← heq]
        exact hfirst m' hm'

/-- An object whose entries are found as the declared members are is written as the object of
those. -/
theorem sort_eq_object_declaredMembers {entries : List (String × Json)}
    (hsorted : (object members).Sorted) (hnodup : (entries.map (·.1)).Nodup)
    (hnames : ∀ name ∈ entries.map (·.1), name ∈ specs.map (·.1))
    (h : ∀ spec ∈ specs, (member? spec.1 entries).map sort
      = (member? spec.1 members).map (declared spec.2)) :
    (object entries).sort = .object (declaredMembers specs members) := by
  have hpairwise := pairwise_declaredMembers specs hsorted.pairwise
  rw [sort]
  refine congrArg object (eq_of_member?_eq (pairwise_ofEntries _) hpairwise fun name => ?_)
  rw [member?_sort hnodup, member?_declaredMembers]
  cases hkind : FieldKind.find? name specs with
  | none =>
      have hname := FieldKind.find?_eq_none_iff.mp hkind
      rw [member?_eq_none_iff.mpr fun hmem => hname (hnames name hmem)]
      rfl
  | some kind => exact h _ (FieldKind.mem_of_find? hkind)

/-- Where all members are declared and have nothing undeclared in them, none is removed. -/
theorem declaredMembers_eq_self (hsorted : (object members).Sorted)
    (hdeclared : ∀ m ∈ members, m.1 ∈ specs.map (·.1))
    (h : ∀ spec ∈ specs, ∀ value, member? spec.1 members = some value →
      value.declared spec.2 = value) :
    declaredMembers specs members = members := by
  have hpairwise := pairwise_declaredMembers specs hsorted.pairwise
  refine eq_of_member?_eq hpairwise hsorted.pairwise fun name => ?_
  rw [member?_declaredMembers]
  cases hvalue : member? name members with
  | none => cases FieldKind.find? name specs <;> rfl
  | some value =>
      cases hkind : FieldKind.find? name specs with
      | none =>
          have hmem := hdeclared _ (mem_of_member? hvalue)
          exact absurd hmem (FieldKind.find?_eq_none_iff.mp hkind)
      | some kind => exact congrArg some (h _ (FieldKind.mem_of_find? hkind) value hvalue)

end pruning

end Json

/-! ### What is written -/

section written

variable {strict : Bool} {members : List (String × Json)} {specs : List FieldSpec}
  {fields : List (String × FieldValue)}

theorem Expression.sort_toJson_call {contract : Contract} (hcontract : contract ∈ Catalog.all)
    (hfunction : Json.member? "function" members = some (.string contract.name))
    (hconform : FieldsConform contract.fields fields) (hsorted : (Json.object members).Sorted)
    (h : ∀ spec ∈ contract.fields, (FieldValue.find? spec.1 fields).map (·.toJson.sort)
      = (Json.member? spec.1 members).map (Json.declared spec.2)) :
    (call contract.name fields).toJson.sort = (Json.object members).declared .expression := by
  have hmarker := Catalog.function_not_mem_fieldNames hcontract
  have hnodup := FieldValue.nodup_call hcontract hconform.sublist hconform.nodup
  show _ = Json.object (Json.declaredMembers (Json.nodeSpecs members) members)
  rw [Json.nodeSpecs_call hcontract hfunction]
  refine Json.sort_eq_object_declaredMembers hsorted (hnodup _) ?_ ?_
  · rw [List.map_cons, FieldValue.map_fst_membersOf]
    exact (hconform.sublist.cons_cons "function").subset
  · refine List.forall_mem_cons.mpr ⟨?_, fun spec hspec => ?_⟩
    · rw [hfunction]
      rfl
    · have hne : "function" ≠ spec.1 := by
        intro heq
        exact hmarker (heq ▸ List.mem_map_of_mem hspec)
      rw [Json.member?_cons, if_neg hne, FieldValue.member?_membersOf, Option.map_map]
      exact h spec hspec

theorem Expression.sort_toJson_conditional {value : Json} {items : List Json}
    {condition : Expression} {thenBranch : List Expression}
    {elseBranch : Option (List Expression)}
    (hfunction : Json.member? "function" members = some (.string conditionalWord))
    (hif : Json.member? "if" members = some value)
    (hcondition : condition.toJson.sort = value.declared .expression)
    (hthen : Json.member? "then" members = some (.array items))
    (hthenBranch : Json.sortItems (itemsOf thenBranch) = Json.declaredItems items)
    (helse : elseBranch.map (fun es => (Json.array (itemsOf es)).sort)
      = (Json.member? "else" members).map (Json.declared (.optional (.sequence none))))
    (hsorted : (Json.object members).Sorted) :
    (conditional condition thenBranch elseBranch).toJson.sort
      = (Json.object members).declared .expression := by
  show _ = Json.object (Json.declaredMembers (Json.nodeSpecs members) members)
  rw [Json.nodeSpecs_conditional hfunction, toJson_conditional]
  refine Json.sort_eq_object_declaredMembers hsorted (nodup_conditional ..)
    (mem_conditionalFields _ _ _ _) ?_
  simp only [Json.conditionalSpecs, List.forall_mem_cons]
  refine ⟨?_, ?_, ?_, ?_, List.forall_mem_nil _⟩
  · rw [hfunction]
    rfl
  · rw [hif]
    exact congrArg some hcondition
  · rw [hthen]
    exact congrArg (some ∘ Json.array) hthenBranch
  · rw [← helse]
    cases elseBranch <;> rfl

mutual

/-- What an expression is written as that was read from a value. -/
theorem Represents.sort_toJson {value : Json} {e : Expression} :
    Represents strict value e → value.Sorted → e.toJson.sort = value.declared .expression
  | .number => fun _ => rfl
  | .call hcontract hfunction hfields _ => fun hsorted => by
      have hspecs := Catalog.wellNamed_fields hcontract
      have hfound := hfields.sort_toJson hspecs hsorted
      exact Expression.sort_toJson_call hcontract hfunction (hfields.conform hspecs) hsorted hfound
  | .conditional hfunction hif hcondition hthen hthenBranch helse _ => fun hsorted => by
      have hconditionJson := hcondition.sort_toJson (hsorted.member? hif)
      have hthenJson := hthenBranch.sort_itemsOf (hsorted.member? hthen).items
      have helseJson := helse.sort_toJson fun _ h => hsorted.member? h
      exact Expression.sort_toJson_conditional hfunction hif hconditionJson hthen hthenJson
        helseJson hsorted

theorem ItemsRepresent.sort_itemsOf {items : List Json} {es : List Expression} :
    ItemsRepresent strict items es → Json.SortedItems items →
      Json.sortItems (Expression.itemsOf es) = Json.declaredItems items
  | .nil => fun _ => rfl
  | .cons hitem hitems => fun hsorted => by
      rw [Expression.itemsOf, Json.sortItems, Json.declaredItems, hitem.sort_toJson hsorted.1,
        hitems.sort_itemsOf hsorted.2]

theorem ElseRepresents.sort_toJson {value : Option Json} {elseBranch : Option (List Expression)} :
    ElseRepresents strict value elseBranch → (∀ v, value = some v → v.Sorted) →
      elseBranch.map (fun es => (Json.array (Expression.itemsOf es)).sort)
        = value.map (Json.declared (.optional (.sequence none)))
  | .absent => fun _ => rfl
  | .present hitems => fun hsorted => by
      have hsortedItems := (hsorted _ rfl).items
      exact congrArg (some ∘ Json.array) (hitems.sort_itemsOf hsortedItems)

theorem FieldRepresents.sort_toJson {kind : FieldKind} {value : Json} {v : FieldValue}
    (hkind : kind.WellNamed = true) : FieldRepresents strict kind value v → value.Sorted →
      v.toJson.sort = value.declared kind
  | .expression h => fun hsorted => h.sort_toJson hsorted
  | .sequence _ hitems => fun hsorted =>
      congrArg Json.array (hitems.sort_itemsOf hsorted.items)
  | .choice _ => fun _ => rfl
  | .text => fun _ => rfl
  | .identifier _ => fun _ => rfl
  | .shape hfields _ => fun hsorted => by
      have hspecs := WellNamed.shape hkind
      have hconform := hfields.conform hspecs
      have hfound := hfields.sort_toJson hspecs hsorted
      refine Json.sort_eq_object_declaredMembers hsorted ?_ ?_ fun spec hspec => ?_
      · rw [FieldValue.map_fst_membersOf]
        exact hconform.nodup
      · rw [FieldValue.map_fst_membersOf]
        exact hconform.sublist.subset
      · rw [FieldValue.member?_membersOf, Option.map_map]
        exact hfound spec hspec
  | .optional h => fun hsorted => by
      rw [Json.declared_optional]
      exact h.sort_toJson (WellNamed.optional hkind) hsorted

/-- Under every declared name, what is found among the fields is the declared part of what is
found among the members. -/
theorem FieldsRepresent.sort_toJson {specs : List FieldSpec} {members : List (String × Json)}
    {fields : List (String × FieldValue)} (hspecs : WellNamed specs) :
    FieldsRepresent strict specs members fields → (Json.object members).Sorted →
      ∀ spec ∈ specs, (FieldValue.find? spec.1 fields).map (·.toJson.sort)
        = (Json.member? spec.1 members).map (Json.declared spec.2)
  | .nil => fun _ => nofun
  | .skip habsent _ hfields => fun hsorted => by
      refine List.forall_mem_cons.mpr ⟨?_, hfields.sort_toJson hspecs.tail hsorted⟩
      have hsublist := (hfields.conform hspecs.tail).sublist
      rw [FieldValue.find?_eq_none fun h => hspecs.not_mem_tail (hsublist.subset h), habsent]
      rfl
  | .take hpresent hvalue hfields => fun hsorted => by
      refine List.forall_mem_cons.mpr ⟨?_, fun spec hspec => ?_⟩
      · rw [FieldValue.find?, if_pos rfl, hpresent]
        exact congrArg some (hvalue.sort_toJson hspecs.head (hsorted.member? hpresent))
      · rw [FieldValue.find?, if_neg (hspecs.ne_of_mem_tail hspec)]
        exact hfields.sort_toJson hspecs.tail hsorted spec hspec

end

end written

/-! ### Under a strict policy -/

section strict

mutual

/-- A value without undeclared members is its own declared part. -/
theorem Represents.declared_eq_self {value : Json} {e : Expression} :
    Represents true value e → value.Sorted → value.declared .expression = value
  | .number => fun _ => rfl
  | @Represents.call _ members _ _ hcontract hfunction hfields hdeclared => fun hsorted => by
      show Json.object (Json.declaredMembers (Json.nodeSpecs members) members) = _
      rw [Json.nodeSpecs_call hcontract hfunction]
      refine congrArg Json.object (Json.declaredMembers_eq_self hsorted (hdeclared rfl) ?_)
      refine List.forall_mem_cons.mpr ⟨fun value hvalue => ?_, hfields.declared_eq_self hsorted⟩
      cases hfunction.symm.trans hvalue
      rfl
  | @Represents.conditional _ members _ _ _ _ _ hfunction hif hcondition hthen hthenBranch helse
      hdeclared => fun hsorted => by
      have hconditionSelf := hcondition.declared_eq_self (hsorted.member? hif)
      have hthenSelf := hthenBranch.declaredItems_eq_self (hsorted.member? hthen).items
      have helseSelf := helse.declared_eq_self fun _ h => hsorted.member? h
      show Json.object (Json.declaredMembers (Json.nodeSpecs members) members) = _
      rw [Json.nodeSpecs_conditional hfunction]
      refine congrArg Json.object (Json.declaredMembers_eq_self hsorted (hdeclared rfl) ?_)
      simp only [Json.conditionalSpecs, List.forall_mem_cons]
      refine ⟨fun value hvalue => ?_, fun value hvalue => ?_, fun value hvalue => ?_, helseSelf,
        List.forall_mem_nil _⟩
      · cases hfunction.symm.trans hvalue
        rfl
      · cases hif.symm.trans hvalue
        exact hconditionSelf
      · cases hthen.symm.trans hvalue
        exact congrArg Json.array hthenSelf

theorem ItemsRepresent.declaredItems_eq_self {items : List Json} {es : List Expression} :
    ItemsRepresent true items es → Json.SortedItems items → Json.declaredItems items = items
  | .nil => fun _ => rfl
  | .cons hitem hitems => fun hsorted => by
      rw [Json.declaredItems, hitem.declared_eq_self hsorted.1,
        hitems.declaredItems_eq_self hsorted.2]

theorem ElseRepresents.declared_eq_self {value : Option Json}
    {elseBranch : Option (List Expression)} :
    ElseRepresents true value elseBranch → (∀ v, value = some v → v.Sorted) →
      ∀ v, value = some v → v.declared (.optional (.sequence none)) = v
  | .absent => fun _ => nofun
  | .present hitems => fun hsorted => by
      have hsortedItems := (hsorted _ rfl).items
      intro v hv
      cases hv
      exact congrArg Json.array (hitems.declaredItems_eq_self hsortedItems)

theorem FieldRepresents.declared_eq_self {kind : FieldKind} {value : Json} {v : FieldValue} :
    FieldRepresents true kind value v → value.Sorted → value.declared kind = value
  | .expression h => fun hsorted => h.declared_eq_self hsorted
  | .sequence _ hitems => fun hsorted =>
      congrArg Json.array (hitems.declaredItems_eq_self hsorted.items)
  | .choice _ => fun _ => rfl
  | .text => fun _ => rfl
  | .identifier _ => fun _ => rfl
  | .shape hfields hdeclared => fun hsorted => by
      have hself := hfields.declared_eq_self hsorted
      exact congrArg Json.object (Json.declaredMembers_eq_self hsorted (hdeclared rfl) hself)
  | .optional h => fun hsorted => by
      rw [Json.declared_optional]
      exact h.declared_eq_self hsorted

theorem FieldsRepresent.declared_eq_self {specs : List FieldSpec} {members : List (String × Json)}
    {fields : List (String × FieldValue)} : FieldsRepresent true specs members fields →
      (Json.object members).Sorted → ∀ spec ∈ specs, ∀ value,
        Json.member? spec.1 members = some value → value.declared spec.2 = value
  | .nil => fun _ => nofun
  | .skip habsent _ hfields => fun hsorted => by
      refine List.forall_mem_cons.mpr ⟨fun value hvalue => ?_, hfields.declared_eq_self hsorted⟩
      cases habsent.symm.trans hvalue
  | .take hpresent h hfields => fun hsorted => by
      refine List.forall_mem_cons.mpr ⟨fun value hvalue => ?_, hfields.declared_eq_self hsorted⟩
      cases hpresent.symm.trans hvalue
      exact h.declared_eq_self (hsorted.member? hpresent)

end

end strict

/-! ### Documents -/

section documents

variable {document : Json} {s : Strategy}

theorem DocumentRepresents.sort_toJson {strict : Bool} (h : DocumentRepresents strict document s)
    (hsorted : document.Sorted) : s.toJson.sort = document.declaredPart := by
  cases h with
  | intro hname hauthor hstrategy hroot =>
      have hvalue := hroot.sort_toJson (hsorted.member? hstrategy)
      refine Json.sort_eq_object_declaredMembers hsorted
        (show ["name", "author", "strategy"].Nodup by decide) (fun _ h => h) ?_
      simp only [Json.documentSpecs, List.forall_mem_cons]
      refine ⟨?_, ?_, ?_, List.forall_mem_nil _⟩
      · rw [hname]
        rfl
      · rw [hauthor]
        rfl
      · rw [hstrategy]
        exact congrArg some hvalue

theorem DocumentRepresents.declaredPart_eq_self (h : DocumentRepresents true document s)
    (hsorted : document.Sorted) : document.declaredPart = document := by
  cases h with
  | intro hname hauthor hstrategy hroot hdeclared =>
      have hself := hroot.declared_eq_self (hsorted.member? hstrategy)
      refine congrArg Json.object (Json.declaredMembers_eq_self hsorted (hdeclared rfl) ?_)
      simp only [Json.documentSpecs, List.forall_mem_cons]
      refine ⟨fun value hvalue => ?_, fun value hvalue => ?_, fun value hvalue => ?_,
        List.forall_mem_nil _⟩
      · cases hname.symm.trans hvalue
        rfl
      · cases hauthor.symm.trans hvalue
        rfl
      · cases hstrategy.symm.trans hvalue
        exact hself

/-- **Reading loses nothing that is declared.**  A strategy is written as the declared part of
the document that it was read from, which is the whole document under a strict policy.  The
members of a document stand in the order of their names, as they do in every value that is
read from a text (`Json.sorted_of_parse?`), and so do those of what is written once they are
sorted. -/
theorem Strategy.sort_toJson_eq_declaredPart {policy : Policy} (hsorted : document.Sorted)
    (h : Strategy.ofJson? policy document = .ok s) :
    s.toJson.sort = document.declaredPart ∧ (policy.strict = true → s.toJson.sort = document) := by
  obtain ⟨hdocument, _⟩ := Strategy.ofJson?_eq_ok_iff.mp h
  have hwritten := hdocument.sort_toJson hsorted
  refine ⟨hwritten, fun hstrict => ?_⟩
  rw [hstrict] at hdocument
  rw [hwritten, hdocument.declaredPart_eq_self hsorted]

end documents

/-- A document with a note beside the strategy, and one inside. -/
def Json.annotated : Json :=
  .object [("author", .string "nobody"), ("name", .string "idle"), ("note", .null),
    ("strategy", .object [("function", .string conditionalWord), ("if", .number (.integer 1)),
      ("note", .array [.null]), ("then", .array [])])]

theorem Json.sorted_annotated : Json.annotated.Sorted := by
  simp only [annotated, Sorted, SortedMembers, SortedItems, List.pairwise_cons]
  decide

/-- The notes are lost, and nothing else. -/
theorem Json.declaredPart_annotated :
    Json.annotated.Sorted
      ∧ Strategy.ofJson? ⟨false, 2, true⟩ Json.annotated
        = .ok ⟨"idle", "nobody", ⟨.number (.integer 1), [], none⟩⟩
      ∧ (Strategy.mk "idle" "nobody" ⟨.number (.integer 1), [], none⟩).toJson.sort
        = Json.annotated.declaredPart := by
  have hread : Strategy.ofJson? ⟨false, 2, true⟩ Json.annotated
      = .ok ⟨"idle", "nobody", ⟨.number (.integer 1), [], none⟩⟩ := rfl
  exact ⟨sorted_annotated, hread, (Strategy.sort_toJson_eq_declaredPart sorted_annotated hread).1⟩

end StrategyDoc
