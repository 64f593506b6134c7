import StrategyDoc.Proofs.Delimiters
import StrategyDoc.Proofs.Separation
import StrategyDoc.Proofs.Undeclared

/-! # Texts of paths

The text of a path puts points before names and brackets around item numbers.  Names without
these marks are told apart from them, so such a path is known by its text, unless the text is
the one of the root (`Path.eq_of_text_eq`).

A permissive policy reports nothing about undeclared members.  All names on the paths of its
diagnostics are then declared ones (`Reports.isVariableName`), and the diagnostics of a
document have different texts of paths (`Path.text_unambiguous`). -/

namespace StrategyDoc

/-! ### Paths by their texts -/

/-- A character that is no mark in the text of a path. -/
def Path.isInName (c : Char) : Bool := c != '.' && c != '[' && c != ']'

/-- The name is not empty and has no marks of a path in it. -/
structure IsPlainName (name : String) : Prop where
  ne_empty : name ≠ ""
  no_mark : ∀ c ∈ name.toList, Path.isInName c = true

namespace Path

/-- All names on the path are plain, and it does not look like the root. -/
structure Plain (path : Path) : Prop where
  isPlainName : ∀ name, .field name ∈ path → IsPlainName name
  ne_root : path ≠ [.field "<root>"]

theorem toList_textAfter_field (name : String) (rest : Path) :
    (textAfter (.field name :: rest)).toList = '.' :: (name.toList ++ (textAfter rest).toList) := by
  simp [textAfter]

theorem toList_textAfter_index (number : Nat) (rest : Path) :
    (textAfter (.index number :: rest)).toList
      = '[' :: (Nat.toDigits 10 number ++ ']' :: (textAfter rest).toList) := by
  simp [textAfter, toString, Nat.repr]

theorem stops_textAfter (path : Path) : Stops isInName (textAfter path).toList := by
  match path with
  | [] => exact stops_nil
  | .field name :: rest =>
      rw [toList_textAfter_field]
      exact stops_cons.mpr rfl
  | .index number :: rest =>
      rw [toList_textAfter_index]
      exact stops_cons.mpr rfl

theorem isInName_of_mem_toDigits {n : Nat} : ∀ c ∈ Nat.toDigits 10 n, isInName c = true := by
  intro c hc
  obtain ⟨digit, hdigit, rfl⟩ := exists_digit_of_mem_toDigits (by decide) hc
  have hall : ∀ digit < 10, isInName (Nat.digitChar digit) = true := by decide
  exact hall digit hdigit

theorem textAfter_inj {path path' : Path} (hpath : ∀ name, .field name ∈ path → IsPlainName name)
    (hpath' : ∀ name, .field name ∈ path' → IsPlainName name)
    (h : (textAfter path).toList = (textAfter path').toList) : path = path' := by
  induction path generalizing path' with
  | nil =>
      match path' with
      | [] => rfl
      | .field name :: rest =>
          rw [toList_textAfter_field] at h
          cases h
      | .index number :: rest =>
          rw [toList_textAfter_index] at h
          cases h
  | cons step rest ih =>
      have hrest := fun name hname => hpath name (List.mem_cons_of_mem _ hname)
      cases step with
      | field name =>
          rw [toList_textAfter_field] at h
          match path' with
          | [] => cases h
          | .field name' :: rest' =>
              rw [toList_textAfter_field] at h
              have hname := (hpath name List.mem_cons_self).no_mark
              have hname' := (hpath' name' List.mem_cons_self).no_mark
              obtain ⟨heq, hmore⟩ := append_inj_of_stops hname hname' (stops_textAfter rest)
                (stops_textAfter rest') (List.cons.inj h).2
              rw [String.toList_inj.mp heq,
                ih hrest (fun name hname => hpath' name (List.mem_cons_of_mem _ hname)) hmore]
          | .index number :: rest' =>
              rw [toList_textAfter_index] at h
              exact absurd (List.cons.inj h).1 (by decide)
      | index number =>
          rw [toList_textAfter_index] at h
          match path' with
          | [] => cases h
          | .field name' :: rest' =>
              rw [toList_textAfter_field] at h
              exact absurd (List.cons.inj h).1 (by decide)
          | .index number' :: rest' =>
              rw [toList_textAfter_index] at h
              obtain ⟨heq, hmore⟩ := append_inj_of_stops isInName_of_mem_toDigits
                isInName_of_mem_toDigits (stops_cons.mpr rfl) (stops_cons.mpr rfl)
                (List.cons.inj h).2
              rw [toDigits_injective (by decide) (by decide) heq,
                ih hrest (fun name hname => hpath' name (List.mem_cons_of_mem _ hname))
                  (List.cons.inj hmore).2]

theorem toList_textAfter_eq (name : String) (rest : Path) :
    (textAfter (.field name :: rest)).toList = '.' :: (text (.field name :: rest)).toList := by
  rw [toList_textAfter_field, text, String.toList_append]

theorem Plain.text_ne_root {name : String} {rest : Path} (hpath : Plain (.field name :: rest)) :
    text (.field name :: rest) ≠ "<root>" := by
  intro h
  have hname := hpath.isPlainName name List.mem_cons_self
  have hrest := fun name hname => hpath.isPlainName name (List.mem_cons_of_mem _ hname)
  have hroot := hpath.ne_root
  have hchars : name.toList ++ (textAfter rest).toList = "<root>".toList ++ (textAfter []).toList := by
    rw [← String.toList_append]
    exact congrArg String.toList h
  have hword : ∀ c ∈ "<root>".toList, isInName c = true := List.all_eq_true.mp (by decide)
  obtain ⟨heq, hmore⟩ := append_inj_of_stops hname.no_mark hword (stops_textAfter rest)
    (stops_textAfter []) hchars
  obtain rfl := textAfter_inj hrest (fun _ h => absurd h List.not_mem_nil) hmore
  rw [String.toList_inj.mp heq] at hroot
  exact hroot rfl

theorem text_field_ne_index {name : String} {number : Nat} {rest rest' : Path}
    (hname : IsPlainName name) :
    text (.field name :: rest) ≠ text (.index number :: rest') := by
  intro h
  have hchars := congrArg String.toList h
  rw [text, text, toList_textAfter_index, String.toList_append] at hchars
  obtain ⟨first, more, hcons⟩ := List.exists_cons_of_ne_nil
    (mt String.toList_eq_nil_iff.mp hname.ne_empty)
  have hfirst := hname.no_mark first (hcons ▸ List.mem_cons_self)
  rw [hcons] at hchars
  rw [(List.cons.inj hchars).1] at hfirst
  exact absurd hfirst (by decide)

/-- **Plain paths are known by their text.** -/
theorem Plain.eq_of_text_eq {path path' : Path} (hpath : path.Plain) (hpath' : path'.Plain)
    (h : path.text = path'.text) : path = path' := by
  match path, path' with
  | [], [] => rfl
  | [], .field name :: rest => exact absurd h.symm hpath'.text_ne_root
  | .field name :: rest, [] => exact absurd h hpath.text_ne_root
  | [], .index number :: rest =>
      have hchars := congrArg String.toList h
      rw [text, text, toList_textAfter_index] at hchars
      exact absurd (List.cons.inj hchars).1 (by decide)
  | .index number :: rest, [] =>
      have hchars := congrArg String.toList h
      rw [text, text, toList_textAfter_index] at hchars
      exact absurd (List.cons.inj hchars).1 (by decide)
  | .field name :: rest, .index number :: rest' =>
      exact absurd h (text_field_ne_index (hpath.isPlainName name List.mem_cons_self))
  | .index number :: rest, .field name :: rest' =>
      exact absurd h.symm (text_field_ne_index (hpath'.isPlainName name List.mem_cons_self))
  | .field name :: rest, .field name' :: rest' =>
      refine textAfter_inj hpath.isPlainName hpath'.isPlainName ?_
      rw [toList_textAfter_eq, toList_textAfter_eq, h]
  | .index number :: rest, .index number' :: rest' =>
      exact textAfter_inj hpath.isPlainName hpath'.isPlainName (congrArg String.toList h)

end Path

/-! ### Declared names -/

theorem IsVariableName.isPlainName {name : String} (h : IsVariableName name) :
    IsPlainName name := by
  refine ⟨?_, fun c hc => ?_⟩
  · rintro rfl
    obtain ⟨_, _, hcons, -⟩ := h
    cases hcons
  · have hc := h.isNamePart_of_mem c hc
    have hmark : ∀ mark, isNamePart mark = false → c ≠ mark := by
      rintro mark hmark rfl
      rw [hc] at hmark
      cases hmark
    simp [Path.isInName, hmark '.' rfl, hmark '[' rfl, hmark ']' rfl]

namespace Catalog

variable {spec : FieldSpec}

theorem isVariableName_of_mem_fields {contract : Contract} (hcontract : contract ∈ all)
    (hspec : spec ∈ contract.fields) : IsVariableName spec.1 := by
  have hall : ∀ c ∈ all, ∀ spec ∈ c.fields, isIdentifier spec.1 = true := by decide +kernel
  exact (isIdentifier_iff _).mp (hall contract hcontract spec hspec)

theorem isVariableName_of_mem_shapes {specs : List FieldSpec} (hspecs : specs ∈ shapes)
    (hspec : spec ∈ specs) : IsVariableName spec.1 := by
  have hall : ∀ specs ∈ shapes, ∀ spec ∈ specs, isIdentifier spec.1 = true := by decide +kernel
  exact (isIdentifier_iff _).mp (hall specs hspecs spec hspec)

end Catalog

theorem isVariableName_function : IsVariableName "function" := (isIdentifier_iff _).mp (by decide)

theorem Declares.isVariableName {role : Role} {members : List (String × Json)} {slots : List Slot}
    {slot : Slot} (h : Declares role members slots) (hrole : role.InCatalog) (hslot : slot ∈ slots) :
    IsVariableName slot.name := by
  cases h with
  | document =>
      have hall : ∀ slot ∈ documentSlots, isIdentifier slot.name = true := by
        simp only [documentSlots, List.forall_mem_cons]
        exact ⟨by decide, by decide, by decide, nofun⟩
      exact (isIdentifier_iff _).mp (hall slot hslot)
  | conditional =>
      have hall : ∀ slot ∈ conditionalSlots, isIdentifier slot.name = true := by
        simp only [conditionalSlots, List.forall_mem_cons]
        exact ⟨by decide, by decide, by decide, by decide, nofun⟩
      exact (isIdentifier_iff _).mp (hall slot hslot)
  | call hcontract =>
      obtain ⟨spec, hspec, rfl⟩ := List.mem_map.mp hslot
      rcases List.mem_cons.mp hspec with rfl | hspec
      · exact isVariableName_function
      · exact Catalog.isVariableName_of_mem_fields hcontract hspec
  | @shape _ specs =>
      obtain ⟨spec, hspec, rfl⟩ := List.mem_map.mp hslot
      rcases hrole with hrole | hrole
      · cases hrole
      · refine Catalog.isVariableName_of_mem_shapes (hrole specs ?_) hspec
        rw [Role.kind, FieldKind.shapes_shape]
        exact .head _

/-! ### Paths of diagnostics -/

section reports

variable {policy : Policy} {place : Place}

theorem Misfit.path_eq {d : Diagnostic} (h : Misfit policy place d) :
    d.path = [] ∨ d.path = [.field "function"] := by
  cases h with
  | noMarker => exact .inr rfl
  | wrongMarker => exact .inr rfl
  | _ => exact .inl rfl

variable (hpermissive : policy.strict = false)

include hpermissive

/-- **A permissive policy reports under declared names only.** -/
theorem Reports.isVariableName {ds : List Diagnostic} (h : Reports policy place ds)
    (hplace : place.role.InCatalog) :
    ∀ d ∈ ds, ∀ name, .field name ∈ d.path → IsVariableName name := by
  induction h with
  | nothing => exact nofun
  | misfit h =>
      intro d hd name hname
      rw [List.mem_singleton.mp hd] at hname
      rcases h.path_eq with hpath | hpath <;> rw [hpath] at hname
      · cases hname
      · cases List.mem_singleton.mp hname
        exact isVariableName_function
  | items hrole _ ih =>
      intro d hd name hname
      obtain ⟨i, item, hitem, e, he, rfl⟩ := Validation.mem_itemErrors.mp hd
      rcases List.mem_cons.mp hname with heq | hname
      · cases heq
      · exact ih item (List.mem_of_getElem? hitem) (.of_shapes_eq_nil rfl) e he name hname
  | fields hslots _ _ ih =>
      intro d hd name hname
      rw [Validation.undeclared_of_permissive hpermissive, List.append_nil] at hd
      obtain ⟨slot, hslot, hd⟩ := List.mem_flatMap.mp hd
      have hdeclared := hslots.isVariableName hplace hslot
      rcases Validation.mem_slotErrors.mp hd with ⟨value, hmember, e, he, rfl⟩ | ⟨_, _, rfl⟩
      · rcases List.mem_cons.mp hname with heq | hname
        · cases heq
          exact hdeclared
        · exact ih slot hslot value hmember (hslots.inCatalog hplace hslot) e he name hname
      · cases List.mem_singleton.mp hname
        exact hdeclared

theorem Diagnostic.separation_of_permissive :
    Separation policy (fun _ => True) Incomparable where
  under step h := by
    unfold Incomparable Diagnostic.under
    rw [List.prefix_cons_inj, List.prefix_cons_inj]
    exact h
  apart h := ⟨Path.not_prefix_of_ne h, Path.not_prefix_of_ne h.symm⟩
  part _ _ _ := trivial
  undeclared declared _ := by
    rw [Validation.undeclared_of_permissive hpermissive]
    exact .nil

end reports

theorem Path.plain_of_isVariableName {path : Path}
    (h : ∀ name, .field name ∈ path → IsVariableName name) : path.Plain := by
  refine ⟨fun name hname => (h name hname).isPlainName, ?_⟩
  rintro rfl
  have hroot := h "<root>" List.mem_cons_self
  exact absurd ((isIdentifier_iff _).mpr hroot) (by decide)

/-- **Texts of paths are unambiguous.**  Plain paths with the same text are the same.  All that a
permissive policy reports has a plain path, so no text of a path is printed twice. -/
theorem Path.text_unambiguous :
    (∀ path path' : Path, path.Plain → path'.Plain → (path.text = path'.text ↔ path = path'))
    ∧ ∀ (policy : Policy) (document : Json), policy.strict = false →
      (∀ d ∈ Diagnostic.ofResult (Strategy.ofJson? policy document), d.path.Plain)
      ∧ ((Diagnostic.ofResult (Strategy.ofJson? policy document)).map (·.path.text)).Nodup := by
  refine ⟨fun path path' hpath hpath' => ⟨hpath.eq_of_text_eq hpath', congrArg text⟩,
    fun policy document hpermissive => ?_⟩
  have hreports := Validation.reports_ofJson?_strategy policy document
  have hplain : ∀ d ∈ Diagnostic.ofResult (Strategy.ofJson? policy document), d.path.Plain :=
    fun d hd => plain_of_isVariableName (hreports.isVariableName hpermissive (.inl rfl) d hd)
  refine ⟨hplain, List.pairwise_map.mpr ?_⟩
  have hapart := hreports.pairwise (Diagnostic.separation_of_permissive hpermissive) trivial
  refine hapart.imp_of_mem fun {d e} hd he hapart htext => hapart.1 ?_
  have hsame : d.path = e.path := (hplain d hd).eq_of_text_eq (hplain e he) htext
  exact hsame ▸ List.prefix_rfl

/-- A document with members that are called like places in it. -/
def Json.lookalike : Json :=
  .object [("author", .null), ("strategy", .object [("function", .string conditionalWord),
    ("then", .array [.null])]), ("strategy.if", .null), ("strategy.then[0]", .null)]

/-- Two paths with the same names, and a document that a permissive policy refuses. -/
theorem Path.text_unambiguous_lookalike :
    Path.Plain [.field "then", .index 1, .index 1] ∧ Path.Plain [.field "then", .index 11]
      ∧ Path.text [.field "then", .index 1, .index 1] ≠ Path.text [.field "then", .index 11]
      ∧ (Policy.mk false 2 false).strict = false
      ∧ ((Diagnostic.ofResult (Strategy.ofJson? ⟨false, 2, false⟩ Json.lookalike)).map
          (·.path.text)).Nodup := by
  have hthen : ∀ numbers : List Nat, Path.Plain (.field "then" :: numbers.map .index) := by
    intro numbers
    refine plain_of_isVariableName fun name hname => ?_
    have hname : name = "then" := by simpa using hname
    rw [hname]
    exact (isIdentifier_iff _).mp (by decide)
  obtain ⟨hinjective, hreported⟩ := text_unambiguous
  refine ⟨hthen [1, 1], hthen [11], ?_, rfl, (hreported _ _ rfl).2⟩
  exact (not_congr (hinjective _ _ (hthen [1, 1]) (hthen [11]))).mpr (by decide)

/-- A strict policy repeats the text of a path if a member is called like it. -/
example : (Diagnostic.ofResult (Strategy.ofJson? ⟨true, 2, false⟩ Json.lookalike)).map
    (·.path.text) = ["name", "author", "strategy.if", "strategy.then[0]", "strategy.if",
      "strategy.then[0]"] := by decide +kernel

end StrategyDoc
