import Mathlib.Data.List.Sigma
import StrategyDoc.Json.Sorted
import StrategyDoc.Proofs.Walk

/-! # Diagnostics apart from each other

Two diagnostics of one document come from different places: the steps to them part somewhere.
What holds of any two diagnostics whose paths part, and is kept by going up a step, holds of
any two diagnostics of a document (`Reports.pairwise`).  In particular no path is the
beginning of another, as far as every member has a name of its own (`Reports.incomparable`),
and what is cut off at the limit has no other diagnostic inside (`Reports.outsideCuts`). -/

namespace StrategyDoc

/-- A relation between diagnostics whose paths part.  Two undeclared members of one object must
be related as well, if the object is a good one. -/
structure Diagnostic.Separation (policy : Policy) (Good : Json → Prop)
    (R : Diagnostic → Diagnostic → Prop) : Prop where
  under : ∀ {d e : Diagnostic} step, R d e → R (d.under step) (e.under step)
  apart : ∀ {d e : Diagnostic} {step step'}, step ≠ step' → R (d.under step) (e.under step')
  part : ∀ {value part} step, Good value → value.step? step = some part → Good part
  undeclared : ∀ {members} declared, Good (.object members) →
    (Validation.undeclared policy declared members).Pairwise R

section pairwise

open Validation

variable {policy : Policy} {Good : Json → Prop} {R : Diagnostic → Diagnostic → Prop}
  (hR : Diagnostic.Separation policy Good R)

include hR

theorem pairwise_under {ds : List Diagnostic} (step : Step) (h : ds.Pairwise R) :
    (ds.map (·.under step)).Pairwise R :=
  List.pairwise_map.mpr (h.imp (hR.under step))

theorem pairwise_itemErrors {found : Json → List Diagnostic} {items : List Json}
    (h : ∀ (i : Nat) item, items[i]? = some item → (found item).Pairwise R) :
    (itemErrors found items).Pairwise R := by
  refine List.pairwise_flatMap.mpr ⟨?_, ?_⟩
  · rintro ⟨item, i⟩ hitem
    have hitem := List.mk_mem_zipIdx_iff_getElem?.mp hitem
    exact pairwise_under hR _ (h i item hitem)
  · have hindices := List.pairwise_map.mp (List.nodup_zipIdx_map_snd items)
    refine hindices.imp fun {a b} hne x hx y hy => ?_
    obtain ⟨x, _, rfl⟩ := List.mem_map.mp hx
    obtain ⟨y, _, rfl⟩ := List.mem_map.mp hy
    exact hR.apart fun heq => hne (Step.index.inj heq)

theorem pairwise_slotErrors {found : Slot → Json → List Diagnostic}
    {members : List (String × Json)} {slots : List Slot} (hnodup : (slots.map (·.name)).Nodup)
    (h : ∀ slot ∈ slots, ∀ value, Json.member? slot.name members = some value →
      (found slot value).Pairwise R) :
    (slots.flatMap (slotErrors found members)).Pairwise R := by
  refine List.pairwise_flatMap.mpr ⟨fun slot hslot => ?_, ?_⟩
  · cases hmember : Json.member? slot.name members with
    | some value =>
        rw [slotErrors_of_member? hmember]
        exact pairwise_under hR _ (h slot hslot value hmember)
    | none =>
        by_cases hrequired : slot.kind.isRequired = true
        · rw [slotErrors_of_required hmember hrequired]
          exact List.pairwise_singleton _ _
        · rw [slotErrors_of_optional hmember hrequired]
          exact .nil
  · refine (List.pairwise_map.mp hnodup).imp fun {a b} hne x hx y hy => ?_
    obtain ⟨x, rfl⟩ := exists_under_of_mem_slotErrors hx
    obtain ⟨y, rfl⟩ := exists_under_of_mem_slotErrors hy
    exact hR.apart fun heq => hne (Step.field.inj heq)

/-- **Diagnostics of one document part.** -/
theorem Reports.pairwise {place : Place} {ds : List Diagnostic} (h : Reports policy place ds)
    (hgood : Good place.value) : ds.Pairwise R := by
  induction h with
  | nothing => exact .nil
  | misfit => exact List.pairwise_singleton _ _
  | items hrole h ih =>
      refine pairwise_itemErrors hR fun i item hitem => ?_
      exact ih item (List.mem_of_getElem? hitem) (hR.part (.index i) hgood hitem)
  | @fields level role members slots found hslots hnodup h ih =>
      refine List.pairwise_append.mpr ⟨?_, hR.undeclared _ hgood, fun x hx y hy => ?_⟩
      · refine pairwise_slotErrors hR hnodup fun slot hslot value hmember => ?_
        exact ih slot hslot value hmember (hR.part (.field slot.name) hgood hmember)
      · obtain ⟨slot, hslot, hx⟩ := List.mem_flatMap.mp hx
        obtain ⟨x, rfl⟩ := exists_under_of_mem_slotErrors hx
        obtain ⟨_, name, _, hname, rfl⟩ := mem_undeclared.mp hy
        refine hR.apart fun heq => hname ?_
        cases heq
        exact List.mem_map_of_mem hslot

end pairwise

/-! ### Paths -/

theorem Path.not_prefix_of_ne {step step' : Step} {path path' : Path} (h : step ≠ step') :
    ¬ step :: path <+: step' :: path' := by
  rw [List.cons_prefix_cons]
  exact fun hprefix => h hprefix.1

/-- No one of the two paths is the beginning of the other. -/
def Diagnostic.Incomparable (d e : Diagnostic) : Prop :=
  ¬ d.path <+: e.path ∧ ¬ e.path <+: d.path

theorem Json.Sorted.step? {value part : Json} {step : Step} (h : value.Sorted)
    (hpart : value.step? step = some part) : part.Sorted := by
  unfold Json.step? at hpart
  split at hpart
  · exact h.member? hpart
  · unfold Json.Sorted at h
    exact Json.sortedItems_iff.mp h part (List.mem_of_getElem? hpart)
  · cases hpart

theorem Json.Sorted.nodup {members : List (String × Json)} (h : (Json.object members).Sorted) :
    (members.map (·.1)).Nodup := by
  unfold Json.Sorted at h
  refine List.pairwise_map.mpr (h.1.imp fun hlt heq => ?_)
  exact String.lt_irrefl _ (heq ▸ hlt)

theorem Diagnostic.separation_incomparable (policy : Policy) :
    Separation policy Json.Sorted Incomparable where
  under step h := by
    unfold Incomparable Diagnostic.under
    rw [List.prefix_cons_inj, List.prefix_cons_inj]
    exact h
  apart h := ⟨Path.not_prefix_of_ne h, Path.not_prefix_of_ne h.symm⟩
  part _ := Json.Sorted.step?
  undeclared {members} declared h := by
    unfold Validation.undeclared
    split
    · refine List.pairwise_map.mpr (List.Pairwise.filter _ ?_)
      refine (List.pairwise_map.mp h.nodup).imp fun hne => ?_
      have hstep := fun heq => hne (Step.field.inj heq)
      exact ⟨Path.not_prefix_of_ne hstep, Path.not_prefix_of_ne (Ne.symm hstep)⟩
    · exact .nil

/-- **No diagnostic is inside another.**  If every member has a name of its own, no path of a
diagnostic is the beginning of the path of another. -/
theorem Reports.incomparable {policy : Policy} {place : Place} {ds : List Diagnostic}
    (h : Reports policy place ds) (hsorted : place.value.Sorted) :
    ds.Pairwise Diagnostic.Incomparable :=
  h.pairwise (Diagnostic.separation_incomparable policy) hsorted

/-- If one of the diagnostics is about the limit, the other is not inside what is cut off. -/
def Diagnostic.OutsideCuts (d e : Diagnostic) : Prop :=
  (d.kind = .recursionLimitExceeded → ¬ d.path <+: e.path)
    ∧ (e.kind = .recursionLimitExceeded → ¬ e.path <+: d.path)

theorem Diagnostic.separation_outsideCuts (policy : Policy) :
    Separation policy (fun _ => True) OutsideCuts where
  under step h := by
    unfold OutsideCuts Diagnostic.under
    rw [List.prefix_cons_inj, List.prefix_cons_inj]
    exact h
  apart h := ⟨fun _ => Path.not_prefix_of_ne h, fun _ => Path.not_prefix_of_ne h.symm⟩
  part _ _ _ := trivial
  undeclared declared _ := by
    refine List.pairwise_of_forall_mem_list fun d hd e he => ?_
    have hdkind := (Validation.unexpected_of_mem_undeclared d hd).2
    have hekind := (Validation.unexpected_of_mem_undeclared e he).2
    constructor
    · intro h
      rw [hdkind] at h
      cases h
    · intro h
      rw [hekind] at h
      cases h

/-- **Nothing is found in what is cut off.** -/
theorem Reports.outsideCuts {policy : Policy} {place : Place} {ds : List Diagnostic}
    (h : Reports policy place ds) : ds.Pairwise Diagnostic.OutsideCuts :=
  h.pairwise (Diagnostic.separation_outsideCuts policy) trivial

end StrategyDoc
