import StrategyDoc.Json.Parser
import StrategyDoc.Json.Sorted

/-! # Values that are read

What holds of every value that the reader puts together holds of every value that is read from
a text (`KeptByReading.of_parse?`); in particular, all of them are sorted
(`sorted_of_parse?`).  The induction is on the steps that the readers may take: with one step
more, each reader yields values with the property if the readers that it calls do. -/

namespace StrategyDoc.Json

/-- A reading that goes on after another succeeds exactly if both do. -/
theorem bind_eq_ok_iff {ε α β : Type} {x : Except ε α} {f : α → Except ε β} {b : β} :
    (x >>= f) = .ok b ↔ ∃ a, x = .ok a ∧ f a = .ok b := by
  cases x with
  | error e => exact ⟨nofun, fun ⟨_, h, _⟩ => nomatch h⟩
  | ok a => simp [bind, Except.bind]

theorem map_eq_ok_iff {ε α β : Type} {x : Except ε α} {f : α → β} {b : β} :
    x.map f = .ok b ↔ ∃ a, x = .ok a ∧ f a = b := by
  cases x with
  | error e => exact ⟨nofun, fun ⟨_, h, _⟩ => nomatch h⟩
  | ok a => simp [Except.map]

/-- The reader puts only values with the property together, if their parts have it. -/
structure KeptByReading (p : Json → Prop) : Prop where
  null : p .null
  bool : ∀ b, p (.bool b)
  number : ∀ {negative text n rest}, readNumber negative text = .ok (n, rest) → p (.number n)
  string : ∀ s, p (.string s)
  array : ∀ {items}, (∀ item ∈ items, p item) → p (.array items)
  object : ∀ {entries : List (String × Json)}, (∀ m ∈ entries, p m.2) →
    p (.object (ofEntries entries))

/-- With so many steps, what is read has the property. -/
structure ReadsOnly (p : Json → Prop) (steps : Nat) : Prop where
  value : ∀ {text value rest}, readValueIn steps text = .ok (value, rest) → p value
  items : ∀ {text items rest}, readItems steps text = .ok (items, rest) → ∀ item ∈ items, p item
  moreItems : ∀ {text items rest}, readMoreItems steps text = .ok (items, rest) →
    ∀ item ∈ items, p item
  entries : ∀ {text entries rest}, readEntries steps text = .ok (entries, rest) →
    ∀ m ∈ entries, p m.2
  moreEntries : ∀ {text entries rest}, readMoreEntries steps text = .ok (entries, rest) →
    ∀ m ∈ entries, p m.2

section step

variable {p : Json → Prop} {steps : Nat} (h : ReadsOnly p steps) {text : List Char}

include h

theorem ReadsOnly.readValueIn (hp : KeptByReading p) {value : Json} {rest : List Char}
    (hread : readValueIn (steps + 1) text = .ok (value, rest)) : p value := by
  rw [Json.readValueIn] at hread
  split at hread
  · cases hread
  · obtain ⟨_, _, hread⟩ := bind_eq_ok_iff.mp hread
    cases hread
    exact hp.null
  · obtain ⟨_, _, hread⟩ := bind_eq_ok_iff.mp hread
    cases hread
    exact hp.bool true
  · obtain ⟨_, _, hread⟩ := bind_eq_ok_iff.mp hread
    cases hread
    exact hp.bool false
  · obtain ⟨_, _, hread⟩ := bind_eq_ok_iff.mp hread
    cases hread
    exact hp.string _
  · obtain ⟨_, hitems, hread⟩ := bind_eq_ok_iff.mp hread
    cases hread
    exact hp.array (h.items hitems)
  · obtain ⟨_, hentries, hread⟩ := bind_eq_ok_iff.mp hread
    cases hread
    exact hp.object (h.entries hentries)
  · obtain ⟨_, hnumber, hread⟩ := bind_eq_ok_iff.mp hread
    cases hread
    exact hp.number hnumber
  · split at hread
    · obtain ⟨_, hnumber, hread⟩ := bind_eq_ok_iff.mp hread
      cases hread
      exact hp.number hnumber
    · cases hread

theorem ReadsOnly.item {items : List Json} {rest : List Char}
    (hread : (do
      let (item, rest) ← Json.readValueIn steps text
      let (items, rest) ← readMoreItems steps rest
      return (item :: items, rest)) = .ok (items, rest)) : ∀ item ∈ items, p item := by
  obtain ⟨_, hitem, hread⟩ := bind_eq_ok_iff.mp hread
  obtain ⟨_, hitems, hread⟩ := bind_eq_ok_iff.mp hread
  cases hread
  exact List.forall_mem_cons.mpr ⟨h.value hitem, h.moreItems hitems⟩

theorem ReadsOnly.readItems {items : List Json} {rest : List Char}
    (hread : readItems (steps + 1) text = .ok (items, rest)) : ∀ item ∈ items, p item := by
  rw [Json.readItems] at hread
  split at hread
  · cases hread
  · cases hread
    exact nofun
  · exact h.item hread

theorem ReadsOnly.readMoreItems {items : List Json} {rest : List Char}
    (hread : readMoreItems (steps + 1) text = .ok (items, rest)) : ∀ item ∈ items, p item := by
  rw [Json.readMoreItems] at hread
  split at hread
  · cases hread
  · cases hread
    exact nofun
  · split at hread
    · cases hread
    · cases hread
    · exact h.item hread
  · cases hread

theorem ReadsOnly.entry {entries : List (String × Json)} {rest : List Char}
    (hread : (do
      let (name, rest) ← unquote text
      let (value, rest) ← Json.readValueIn steps (← readColon rest)
      let (entries, rest) ← readMoreEntries steps rest
      return ((name, value) :: entries, rest)) = .ok (entries, rest)) :
    ∀ m ∈ entries, p m.2 := by
  obtain ⟨_, _, hread⟩ := bind_eq_ok_iff.mp hread
  obtain ⟨_, _, hread⟩ := bind_eq_ok_iff.mp hread
  obtain ⟨_, hvalue, hread⟩ := bind_eq_ok_iff.mp hread
  obtain ⟨_, hentries, hread⟩ := bind_eq_ok_iff.mp hread
  cases hread
  exact List.forall_mem_cons.mpr ⟨h.value hvalue, h.moreEntries hentries⟩

theorem ReadsOnly.readEntries {entries : List (String × Json)} {rest : List Char}
    (hread : readEntries (steps + 1) text = .ok (entries, rest)) : ∀ m ∈ entries, p m.2 := by
  rw [Json.readEntries] at hread
  split at hread
  · cases hread
  · cases hread
    exact nofun
  · exact h.entry hread
  · cases hread

theorem ReadsOnly.readMoreEntries {entries : List (String × Json)} {rest : List Char}
    (hread : readMoreEntries (steps + 1) text = .ok (entries, rest)) : ∀ m ∈ entries, p m.2 := by
  rw [Json.readMoreEntries] at hread
  split at hread
  · cases hread
  · cases hread
    exact nofun
  · split at hread
    · cases hread
    · exact h.entry hread
    · cases hread
    · cases hread
  · cases hread

/-- One step more keeps the property of what is read. -/
theorem ReadsOnly.succ (hp : KeptByReading p) : ReadsOnly p (steps + 1) where
  value := h.readValueIn hp
  items := h.readItems
  moreItems := h.readMoreItems
  entries := h.readEntries
  moreEntries := h.readMoreEntries

end step

theorem KeptByReading.readsOnly {p : Json → Prop} (hp : KeptByReading p) (steps : Nat) :
    ReadsOnly p steps := by
  induction steps with
  | zero => exact ⟨nofun, nofun, nofun, nofun, nofun⟩
  | succ steps ih => exact ih.succ hp

/-- A text is one value with nothing but blanks behind it. -/
theorem parse?_eq_ok_iff {text : String} {value : Json} : parse? text = .ok value
    ↔ ∃ rest, readValue text.toList = .ok (value, rest) ∧ skipBlanks rest = [] := by
  have hdocument : parse? text = .ok value ↔ readDocument text.toList = .ok value := by
    unfold parse?
    cases readDocument text.toList with
    | error fault => exact ⟨nofun, nofun⟩
    | ok other =>
        exact ⟨fun h => congrArg Except.ok (Except.ok.inj h),
          fun h => congrArg Except.ok (Except.ok.inj h)⟩
  rw [hdocument, readDocument, bind_eq_ok_iff]
  constructor
  · rintro ⟨⟨other, rest⟩, hread, h⟩
    dsimp only at h
    split at h
    · next hrest =>
        cases h
        exact ⟨rest, hread, hrest⟩
    · cases h
  · rintro ⟨rest, hread, hrest⟩
    refine ⟨(value, rest), hread, ?_⟩
    simp only [hrest]
    rfl

/-- Every value that is read from a text has each property that the reader keeps. -/
theorem KeptByReading.of_parse? {p : Json → Prop} (hp : KeptByReading p) {text : String}
    {value : Json} (h : parse? text = .ok value) : p value := by
  obtain ⟨rest, hread, -⟩ := parse?_eq_ok_iff.mp h
  unfold readValue at hread
  exact (hp.readsOnly _).value hread

theorem keptByReading_sorted : KeptByReading Sorted where
  null := trivial
  bool _ := trivial
  number _ := trivial
  string _ := trivial
  array h := sortedItems_iff.mpr h
  object h := sorted_object_ofEntries h

/-- **Every value that is read from a text is sorted.** -/
theorem sorted_of_parse? {text : String} {value : Json} (h : parse? text = .ok value) :
    value.Sorted :=
  keptByReading_sorted.of_parse? h

end StrategyDoc.Json
