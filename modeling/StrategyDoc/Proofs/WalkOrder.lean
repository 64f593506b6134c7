import StrategyDoc.Proofs.ByteOrder
import StrategyDoc.Proofs.Justification
import StrategyDoc.Proofs.Separation
import StrategyDoc.Proofs.SortedForm

/-! # Diagnostics in the order of the walk

The walk takes items by their numbers, and members in the order in which their contract
declares them; members outside the contract come last, in the order of their names
(`Place.StepBefore`).  The diagnostics of a document follow this order: where the paths of two
of them part, the step of the earlier one comes first (`inWalkOrder_ofResult`).  So each place
has its diagnostics in one piece, and no diagnostic is about a part of what another one is
about (`incomparable_ofResult`). -/

namespace StrategyDoc

/-! ### The order of steps -/

/-- The names under which the walk looks into an object with these members, in order. -/
inductive VisitOrder : Role → List (String × Json) → List String → Prop
  | document {members : List (String × Json)} :
      VisitOrder .document members ["name", "author", "strategy"]
  | conditional {role : Role} {members : List (String × Json)} (hrole : role.kind = .expression)
      (hfunction : Json.member? "function" members = some (.string conditionalWord)) :
      VisitOrder role members ["if", "then", "else"]
  | call {members : List (String × Json)} {contract : Contract}
      (hcontract : contract ∈ Catalog.all)
      (hfunction : Json.member? "function" members = some (.string contract.name)) :
      VisitOrder (.field .expression) members contract.fieldNames
  | shape {members : List (String × Json)} {specs : List FieldSpec} :
      VisitOrder (.field (.shape specs)) members (specs.map (·.1))

/-- The declared names come first, in their order, and the others in the order of their
bytes. -/
inductive NameBefore (declared : List String) (a b : String) : Prop
  | declared (h : declared.idxOf a < declared.idxOf b)
  | undeclared (ha : a ∉ declared) (hb : b ∉ declared) (h : utf8Bytes a < utf8Bytes b)

/-- The walk takes the one step from the place before the other. -/
inductive Place.StepBefore : Place → Step → Step → Prop
  | index {level i j : Nat} {role : Role} {items : List Json} (h : i < j)
      (hj : j < items.length) : StepBefore ⟨level, role, .array items⟩ (.index i) (.index j)
  | field {level : Nat} {role : Role} {members : List (String × Json)} {names : List String}
      {a b : String} (horder : VisitOrder role members names) (h : NameBefore names a b) :
      StepBefore ⟨level, role, .object members⟩ (.field a) (.field b)

/-- Where the paths of the diagnostics part, the step of the first comes before that of the
second. -/
def Diagnostic.InWalkOrder (start : Place) (d e : Diagnostic) : Prop :=
  ∃ before place step step' after after', start.Leads before place
    ∧ place.StepBefore step step' ∧ step ≠ step'
    ∧ d.path = before ++ step :: after ∧ e.path = before ++ step' :: after'

theorem NameBefore.ne {declared : List String} {a b : String} (h : NameBefore declared a b) :
    a ≠ b := by
  rintro rfl
  cases h with
  | declared h => exact Nat.lt_irrefl _ h
  | undeclared _ _ h => exact List.lt_irrefl _ h

theorem Place.StepBefore.ne {place : Place} {step step' : Step} (h : place.StepBefore step step') :
    step ≠ step' := by
  cases h with
  | index h => exact fun heq => Nat.ne_of_lt h (Step.index.inj heq)
  | field _ h => exact fun heq => h.ne (Step.field.inj heq)

theorem pairwise_idxOf_lt {names : List String} (h : names.Nodup) :
    names.Pairwise fun a b => names.idxOf a < names.idxOf b := by
  refine List.pairwise_iff_getElem.mpr fun i j hi hj hij => ?_
  rw [h.idxOf_getElem i hi, h.idxOf_getElem j hj]
  exact hij

/-! ### Steps in front -/

section under

variable {d e : Diagnostic} {level : Nat} {role : Role}

theorem Diagnostic.inWalkOrder_of_stepBefore {place : Place} {step step' : Step}
    (h : place.StepBefore step step') : InWalkOrder place (d.under step) (e.under step') :=
  ⟨[], place, step, step', d.path, e.path, .here, h, h.ne, rfl, rfl⟩

theorem Diagnostic.InWalkOrder.item {length : Option Nat} {items : List Json} {item : Json}
    {i : Nat} (hrole : role.kind = .sequence length) (hitem : items[i]? = some item)
    (h : InWalkOrder ⟨level, .field .expression, item⟩ d e) :
    InWalkOrder ⟨level, role, .array items⟩ (d.under (.index i)) (e.under (.index i)) := by
  obtain ⟨before, place, step, step', after, after', hleads, hstep, hne, hd, he⟩ := h
  refine ⟨.index i :: before, place, step, step', after, after', .item hrole hitem hleads, hstep,
    hne, ?_, ?_⟩
  · exact congrArg (_ :: ·) hd
  · exact congrArg (_ :: ·) he

theorem Diagnostic.InWalkOrder.field {members : List (String × Json)} {slots : List Slot}
    {slot : Slot} {value : Json} (hslots : Declares role members slots) (hslot : slot ∈ slots)
    (hmember : Json.member? slot.name members = some value)
    (h : InWalkOrder ⟨level + role.levels, slot.role, value⟩ d e) :
    InWalkOrder ⟨level, role, .object members⟩ (d.under (.field slot.name))
      (e.under (.field slot.name)) := by
  obtain ⟨before, place, step, step', after, after', hleads, hstep, hne, hd, he⟩ := h
  refine ⟨.field slot.name :: before, place, step, step', after, after',
    .field hslots hslot hmember hleads, hstep, hne, ?_, ?_⟩
  · exact congrArg (_ :: ·) hd
  · exact congrArg (_ :: ·) he

end under

/-! ### The parts of a value -/

section parts

open Validation

variable {policy : Policy} {level : Nat} {role : Role}

theorem inWalkOrder_itemErrors {length : Option Nat} {items : List Json}
    {found : Json → List Diagnostic} (hrole : role.kind = .sequence length)
    (h : ∀ item ∈ items,
      (found item).Pairwise (Diagnostic.InWalkOrder ⟨level, .field .expression, item⟩)) :
    (itemErrors found items).Pairwise (Diagnostic.InWalkOrder ⟨level, role, .array items⟩) := by
  refine List.pairwise_flatMap.mpr ⟨?_, ?_⟩
  · rintro ⟨item, i⟩ hitem
    have hitem := List.mk_mem_zipIdx_iff_getElem?.mp hitem
    refine List.pairwise_map.mpr ((h item (List.mem_of_getElem? hitem)).imp ?_)
    exact Diagnostic.InWalkOrder.item hrole hitem
  · have hindices : items.zipIdx.Pairwise fun a b => a.2 < b.2 := by
      rw [← List.pairwise_map (f := Prod.snd) (R := (· < ·)), List.zipIdx_map_snd]
      exact List.pairwise_lt_range'
    refine hindices.imp_of_mem fun {a b} _ hb hlt x hx y hy => ?_
    obtain ⟨x, _, rfl⟩ := List.mem_map.mp hx
    obtain ⟨y, _, rfl⟩ := List.mem_map.mp hy
    refine Diagnostic.inWalkOrder_of_stepBefore (.index hlt ?_)
    have hb : items[b.2]? = some b.1 := List.mk_mem_zipIdx_iff_getElem?.mp hb
    exact (List.getElem?_eq_some_iff.mp hb).1

theorem Reports.eq_nil_of_string {s : String} {ds : List Diagnostic}
    (h : Reports policy ⟨level, .field .text, .string s⟩ ds) : ds = [] := by
  cases h with
  | nothing => rfl
  | misfit h =>
      cases h with
      | wrongSort _ h => exact absurd trivial h

/-- The slots with diagnostics are those that the walk visits in order: the marker of a
conditional or a call is read before. -/
theorem Declares.exists_visited {members : List (String × Json)} {slots : List Slot}
    {found : Slot → Json → List Diagnostic} (hslots : Declares role members slots)
    (h : ∀ slot ∈ slots, ∀ value, Json.member? slot.name members = some value →
      Reports policy ⟨level + role.levels, slot.role, value⟩ (found slot value)) :
    ∃ visited : List Slot, visited.Sublist slots ∧ VisitOrder role members (visited.map (·.name))
      ∧ slots.flatMap (slotErrors found members) = visited.flatMap (slotErrors found members) := by
  have hmarker : ∀ slot ∈ slots, slot.role = .field .text →
      ∀ s, Json.member? slot.name members = some (.string s) →
        slotErrors found members slot = [] := by
    intro slot hslot hrole s hs
    have hreports := h slot hslot _ hs
    rw [hrole] at hreports
    rw [slotErrors_of_member? hs, hreports.eq_nil_of_string, List.map_nil]
  cases hslots with
  | document => exact ⟨documentSlots, List.Sublist.refl _, .document, rfl⟩
  | conditional hrole hfunction =>
      refine ⟨conditionalSlots.tail, List.tail_sublist _, .conditional hrole hfunction, ?_⟩
      have hnil := hmarker _ List.mem_cons_self rfl _ hfunction
      show slotErrors found members _ ++ _ = _
      rw [hnil]
      rfl
  | call hcontract hfunction =>
      rename_i contract
      refine ⟨contract.fields.map Slot.ofSpec, List.sublist_cons_self _ _, ?_, ?_⟩
      · rw [map_name_ofSpec]
        exact .call hcontract hfunction
      · have hnil := hmarker _ List.mem_cons_self rfl _ hfunction
        show slotErrors found members _ ++ _ = _
        rw [hnil]
        rfl
  | shape =>
      rename_i specs
      refine ⟨specs.map Slot.ofSpec, List.Sublist.refl _, ?_, rfl⟩
      rw [map_name_ofSpec]
      exact .shape

theorem inWalkOrder_undeclared {members : List (String × Json)} {names declared : List String}
    (horder : VisitOrder role members names) (hnames : names ⊆ declared)
    (hsorted : (Json.object members).Sorted) :
    (undeclared policy declared members).Pairwise
      (Diagnostic.InWalkOrder ⟨level, role, .object members⟩) := by
  unfold undeclared
  split
  · refine List.pairwise_map.mpr ?_
    have hkept := hsorted.pairwise.filter fun m => !declared.contains m.1
    refine hkept.imp_of_mem fun {a b} ha hb hlt => ?_
    have hfresh : ∀ m ∈ members.filter (fun m => !declared.contains m.1), m.1 ∉ names := by
      intro m hm hmem
      have hm := (List.mem_filter.mp hm).2
      simp only [Bool.not_eq_true', List.contains_eq_mem, decide_eq_false_iff_not] at hm
      exact hm (hnames hmem)
    refine Diagnostic.inWalkOrder_of_stepBefore (.field horder ?_)
    exact .undeclared (hfresh a ha) (hfresh b hb) (lt_iff_utf8Bytes_lt.mp hlt)
  · exact .nil

end parts

/-- **Diagnostics come in the order of the walk.** -/
theorem Reports.inWalkOrder {policy : Policy} {place : Place} {ds : List Diagnostic}
    (h : Reports policy place ds) (hsorted : place.value.Sorted) :
    ds.Pairwise (Diagnostic.InWalkOrder place) := by
  induction h with
  | nothing => exact .nil
  | misfit => exact List.pairwise_singleton _ _
  | items hrole h ih =>
      exact inWalkOrder_itemErrors hrole fun item hitem =>
        ih item hitem (Json.sortedItems_iff.mp (Json.Sorted.items hsorted) item hitem)
  | @fields level role members slots found hslots hnodup h ih =>
      obtain ⟨visited, hsublist, horder, hvisited⟩ := hslots.exists_visited h
      have hnames := hsublist.map (·.name)
      have hrank := pairwise_idxOf_lt (hnodup.sublist hnames)
      rw [hvisited]
      -- Two diagnostics are in one slot, in two slots, both at undeclared members, or one in a
      -- slot and one at an undeclared member.
      refine List.pairwise_append.mpr ⟨List.pairwise_flatMap.mpr ⟨fun slot hslot => ?_, ?_⟩,
        inWalkOrder_undeclared horder hnames.subset hsorted, fun x hx y hy => ?_⟩
      · have hslot := hsublist.subset hslot
        cases hmember : Json.member? slot.name members with
        | some value =>
            rw [Validation.slotErrors_of_member? hmember]
            refine List.pairwise_map.mpr
              ((ih slot hslot value hmember (hsorted.member? hmember)).imp ?_)
            exact Diagnostic.InWalkOrder.field hslots hslot hmember
        | none =>
            by_cases hrequired : slot.kind.isRequired = true
            · rw [Validation.slotErrors_of_required hmember hrequired]
              exact List.pairwise_singleton _ _
            · rw [Validation.slotErrors_of_optional hmember hrequired]
              exact .nil
      · refine (List.pairwise_map.mp hrank).imp fun {a b} hlt x hx y hy => ?_
        obtain ⟨x, rfl⟩ := Validation.exists_under_of_mem_slotErrors hx
        obtain ⟨y, rfl⟩ := Validation.exists_under_of_mem_slotErrors hy
        exact Diagnostic.inWalkOrder_of_stepBefore (.field horder (.declared hlt))
      · obtain ⟨slot, hslot, hx⟩ := List.mem_flatMap.mp hx
        obtain ⟨x, rfl⟩ := Validation.exists_under_of_mem_slotErrors hx
        obtain ⟨_, name, _, hname, rfl⟩ := Validation.mem_undeclared.mp hy
        have hfresh : name ∉ visited.map (·.name) := fun hmem => hname (hnames.subset hmem)
        have hmem : slot.name ∈ visited.map (·.name) := List.mem_map_of_mem hslot
        refine Diagnostic.inWalkOrder_of_stepBefore (.field horder (.declared ?_))
        rw [List.idxOf_of_notMem hfresh]
        exact List.idxOf_lt_length_iff.mpr hmem

/-! ### Documents -/

/-- A document in which nothing but the marker is as it should be. -/
def Json.careless : Json :=
  .object [("author", .null), ("name", .null),
    ("strategy", .object [("also", .null), ("else", .null), ("function", .string conditionalWord),
      ("if", .null), ("then", .array [.null, .null])])]

theorem Json.sorted_careless : Json.careless.Sorted := by
  simp only [careless, Sorted, SortedMembers, SortedItems, List.pairwise_cons]
  decide

open Validation in
/-- **One defect, one diagnostic.**  No path of a diagnostic is the beginning of the path of
another: the paths are different, and nothing is said about a part of what another diagnostic
is about.  Objects have their members in order, as all that are read from a text have
(`Json.sorted_of_parse?`). -/
theorem incomparable_ofResult (policy : Policy) {document : Json} (h : document.Sorted) :
    (Diagnostic.ofResult (Strategy.ofJson? policy document)).Pairwise Diagnostic.Incomparable
      ∧ (Diagnostic.ofResult (Expression.ofJson? policy document)).Pairwise
        Diagnostic.Incomparable :=
  ⟨(reports_ofJson?_strategy policy document).incomparable h,
    (reports_ofJson?_expression policy document).incomparable h⟩

/-- The careless document as a strategy has seven diagnostics, none of them inside another. -/
theorem Json.incomparable_careless : Json.careless.Sorted
    ∧ (Diagnostic.ofResult (Strategy.ofJson? ⟨true, 2, false⟩ Json.careless)).length = 7
    ∧ (Diagnostic.ofResult (Strategy.ofJson? ⟨true, 2, false⟩ Json.careless)).Pairwise
      Diagnostic.Incomparable :=
  ⟨sorted_careless, rfl, (incomparable_ofResult ⟨true, 2, false⟩ sorted_careless).1⟩

open Validation in
/-- **The diagnostics of a document are in the order of the walk.**  The members outside the
contracts are in order because those of the document are (`Json.sorted_of_parse?`). -/
theorem inWalkOrder_ofResult (policy : Policy) {document : Json} (h : document.Sorted) :
    (Diagnostic.ofResult (Strategy.ofJson? policy document)).Pairwise
        (Diagnostic.InWalkOrder ⟨1, .document, document⟩)
      ∧ (Diagnostic.ofResult (Expression.ofJson? policy document)).Pairwise
        (Diagnostic.InWalkOrder ⟨1, .field .expression, document⟩) :=
  ⟨(reports_ofJson?_strategy policy document).inWalkOrder h,
    (reports_ofJson?_expression policy document).inWalkOrder h⟩

/-- The diagnostics of the careless document do not follow the order of its members. -/
theorem Json.inWalkOrder_careless : Json.careless.Sorted
    ∧ (Diagnostic.ofResult (Strategy.ofJson? ⟨true, 2, false⟩ Json.careless)).map (·.path)
      = [[.field "name"], [.field "author"], [.field "strategy", .field "if"],
        [.field "strategy", .field "then", .index 0], [.field "strategy", .field "then", .index 1],
        [.field "strategy", .field "else"], [.field "strategy", .field "also"]]
    ∧ (Diagnostic.ofResult (Strategy.ofJson? ⟨true, 2, false⟩ Json.careless)).Pairwise
      (Diagnostic.InWalkOrder ⟨1, .document, Json.careless⟩) :=
  ⟨sorted_careless, rfl, (inWalkOrder_ofResult ⟨true, 2, false⟩ sorted_careless).1⟩

end StrategyDoc
