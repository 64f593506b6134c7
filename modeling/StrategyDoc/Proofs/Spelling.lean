import StrategyDoc.Proofs.Readers
import StrategyDoc.Proofs.SortedForm

/-! # Texts of a value

A value whose numbers are integers stands in many texts: there may be blanks around every token,
a string has many spellings, and the members of an object may stand in any order (`Spells`).
All these texts are read as the value, provided that its members are sorted, and nothing of what
follows them is taken (`Spells.isReadAs`).  The nesting of the value does not matter.

The induction is on the way in which the text stands for the value.  Each reader is given twice
as many steps as there is text: of the two steps that lead from an item to the next one, the
second takes a character. -/

namespace StrategyDoc.Json

mutual

/-- The texts that stand for a value, without blanks at either end. -/
inductive Spells : Json → List Char → Prop
  | null : Spells .null ['n', 'u', 'l', 'l']
  | true : Spells (.bool true) ['t', 'r', 'u', 'e']
  | false : Spells (.bool false) ['f', 'a', 'l', 's', 'e']
  | integer {value : Int} (h : Number.InRange value) :
      Spells (.number (.integer value)) (integerText value)
  | string {s : String} {text : List Char} (h : SpellsString s text) : Spells (.string s) text
  | emptyArray {blanks : List Char} (hblanks : AllBlank blanks) :
      Spells (.array []) ('[' :: (blanks ++ [']']))
  | array {item : Json} {items : List Json} {blanks text more : List Char}
      (hblanks : AllBlank blanks) (hitem : Spells item text) (hitems : SpellsItems items more) :
      Spells (.array (item :: items)) ('[' :: (blanks ++ (text ++ (more ++ [']']))))
  | emptyObject {blanks : List Char} (hblanks : AllBlank blanks) :
      Spells (.object []) ('\x7b' :: (blanks ++ ['\x7d']))
  /-- The entries are written in any order. -/
  | object {members entries : List (String × Json)} {entry : String × Json}
      {blanks text more : List Char} (horder : (entry :: entries).Perm members)
      (hblanks : AllBlank blanks) (hentry : SpellsEntry entry text)
      (hentries : SpellsEntries entries more) :
      Spells (.object members) ('\x7b' :: (blanks ++ (text ++ (more ++ ['\x7d']))))

/-- The texts that stand for further items, up to the end of their array. -/
inductive SpellsItems : List Json → List Char → Prop
  | nil {blanks : List Char} (hblanks : AllBlank blanks) : SpellsItems [] blanks
  | cons {item : Json} {items : List Json} {before after text more : List Char}
      (hbefore : AllBlank before) (hafter : AllBlank after) (hitem : Spells item text)
      (hitems : SpellsItems items more) :
      SpellsItems (item :: items) (before ++ ',' :: (after ++ (text ++ more)))

/-- The texts that stand for an entry of an object. -/
inductive SpellsEntry : String × Json → List Char → Prop
  | mk {name : String} {value : Json} {quoted before after text : List Char}
      (hname : SpellsString name quoted) (hbefore : AllBlank before) (hafter : AllBlank after)
      (hvalue : Spells value text) :
      SpellsEntry (name, value) (quoted ++ (before ++ ':' :: (after ++ text)))

/-- The texts that stand for further entries, up to the end of their object. -/
inductive SpellsEntries : List (String × Json) → List Char → Prop
  | nil {blanks : List Char} (hblanks : AllBlank blanks) : SpellsEntries [] blanks
  | cons {entry : String × Json} {entries : List (String × Json)}
      {before after text more : List Char} (hbefore : AllBlank before) (hafter : AllBlank after)
      (hentry : SpellsEntry entry text) (hentries : SpellsEntries entries more) :
      SpellsEntries (entry :: entries) (before ++ ',' :: (after ++ (text ++ more)))

end

/-! ### What follows -/

section follow

variable {text rest : List Char} {c : Char}

/-- Behind an item there is a comma, a blank or the end of the array. -/
theorem SpellsItems.numberEnds {items : List Json} (h : SpellsItems items text)
    (hrest : NumberEnds rest) : NumberEnds (text ++ rest) := by
  cases h with
  | nil hblanks => exact numberEnds_blanks hblanks hrest
  | cons hbefore =>
      rw [List.append_assoc, List.cons_append]
      exact numberEnds_blanks hbefore (numberEnds_cons.mpr (by decide))

/-- Behind an entry there is a comma, a blank or the end of the object. -/
theorem SpellsEntries.numberEnds {entries : List (String × Json)} (h : SpellsEntries entries text)
    (hrest : NumberEnds rest) : NumberEnds (text ++ rest) := by
  cases h with
  | nil hblanks => exact numberEnds_blanks hblanks hrest
  | cons hbefore =>
      rw [List.append_assoc, List.cons_append]
      exact numberEnds_blanks hbefore (numberEnds_cons.mpr (by decide))

end follow

/-! ### Reading -/

/-- The text is read as the value and the reader stops behind it. -/
structure IsReadAs (value : Json) (text : List Char) : Prop where
  starts : ∃ c more, text = c :: more ∧ isBlank c = false ∧ c ≠ ']'
  reads : ∀ steps rest, NumberEnds rest → 2 * (text ++ rest).length + 1 ≤ steps →
    Yields (readValueIn steps (text ++ rest)) (some value) rest

/-- The texts of further items are read up to the end of their array. -/
def ItemsAreRead (items : List Json) (text : List Char) : Prop :=
  ∀ steps rest, 2 * (text ++ ']' :: rest).length + 1 ≤ steps →
    Yields (readMoreItems steps (text ++ ']' :: rest)) (some items) rest

/-- The texts of further entries are read up to the end of their object. -/
def EntriesAreRead (entries : List (String × Json)) (text : List Char) : Prop :=
  ∀ steps rest, 2 * (text ++ '\x7d' :: rest).length + 1 ≤ steps →
    Yields (readMoreEntries steps (text ++ '\x7d' :: rest)) (some entries) rest

theorem isReadAs_null : IsReadAs .null ['n', 'u', 'l', 'l'] where
  starts := ⟨'n', _, rfl, rfl, by decide⟩
  reads steps rest _ hsteps := by
    obtain ⟨steps, rfl⟩ : ∃ n, steps = n + 1 := ⟨steps - 1, by omega⟩
    rfl

theorem isReadAs_true : IsReadAs (.bool true) ['t', 'r', 'u', 'e'] where
  starts := ⟨'t', _, rfl, rfl, by decide⟩
  reads steps rest _ hsteps := by
    obtain ⟨steps, rfl⟩ : ∃ n, steps = n + 1 := ⟨steps - 1, by omega⟩
    rfl

theorem isReadAs_false : IsReadAs (.bool false) ['f', 'a', 'l', 's', 'e'] where
  starts := ⟨'f', _, rfl, rfl, by decide⟩
  reads steps rest _ hsteps := by
    obtain ⟨steps, rfl⟩ : ∃ n, steps = n + 1 := ⟨steps - 1, by omega⟩
    rfl

theorem isReadAs_integer {value : Int} (h : Number.InRange value) :
    IsReadAs (.number (.integer value)) (integerText value) where
  starts := by
    obtain ⟨c, more, htext, hc⟩ := numberStarts_integerText value []
    rw [List.append_nil] at htext
    refine ⟨c, more, htext, ?_⟩
    rcases hc with rfl | hdigit
    · exact ⟨rfl, by decide⟩
    · refine ⟨isBlank_eq_false_of_isDigit hdigit, ?_⟩
      rintro rfl
      exact absurd hdigit (by decide)
  reads steps rest hrest hsteps := by
    obtain ⟨steps, rfl⟩ : ∃ n, steps = n + 1 := ⟨steps - 1, by omega⟩
    exact readValueIn_number (numberStarts_integerText value rest)
      (yields_some_iff.mpr (readSigned_integerText h hrest))

theorem isReadAs_string {s : String} {text : List Char} (h : SpellsString s text) :
    IsReadAs (.string s) text where
  starts := by
    cases h with
    | quoted => exact ⟨'"', _, rfl, rfl, by decide⟩
  reads steps rest _ hsteps := by
    obtain ⟨steps, rfl⟩ : ∃ n, steps = n + 1 := ⟨steps - 1, by omega⟩
    exact readValueIn_string h

section items

variable {item : Json} {items : List Json} {blanks before after text more : List Char}

theorem isReadAs_emptyArray (hblanks : AllBlank blanks) :
    IsReadAs (.array []) ('[' :: (blanks ++ [']'])) where
  starts := ⟨'[', _, rfl, rfl, by decide⟩
  reads steps rest _ hsteps := by
    rw [List.cons_append, List.length_cons] at hsteps
    obtain ⟨steps, rfl⟩ : ∃ n, steps = n + 2 := ⟨steps - 2, by omega⟩
    have hread : Yields (readItems (steps + 1) (blanks ++ [']'] ++ rest)) (some []) rest := by
      rw [List.append_assoc, readItems_blanks hblanks]
      exact readItems_nil
    exact readValueIn_array hread

theorem isReadAs_array (hblanks : AllBlank blanks) (hitem : IsReadAs item text)
    (hitems : ItemsAreRead items more) (hends : ∀ rest, NumberEnds (more ++ ']' :: rest)) :
    IsReadAs (.array (item :: items)) ('[' :: (blanks ++ (text ++ (more ++ [']'])))) where
  starts := ⟨'[', _, rfl, rfl, by decide⟩
  reads steps rest _ hsteps := by
    obtain ⟨c, tail, rfl, hc, hend⟩ := hitem.starts
    have hread := fun n => hitem.reads n _ (hends rest)
    have hmore := fun n => hitems n rest
    simp only [List.cons_append, List.nil_append, List.append_assoc, List.length_cons,
      List.length_append] at hread hmore hsteps ⊢
    obtain ⟨steps, rfl⟩ : ∃ n, steps = n + 2 := ⟨steps - 2, by omega⟩
    exact readValueIn_array
      (readItems_cons hblanks hc hend (hread steps (by omega)) (hmore steps (by omega)))

theorem itemsAreRead_nil (hblanks : AllBlank blanks) : ItemsAreRead [] blanks := by
  intro steps rest hsteps
  obtain ⟨steps, rfl⟩ : ∃ n, steps = n + 1 := ⟨steps - 1, by omega⟩
  exact readMoreItems_nil hblanks

theorem itemsAreRead_cons (hbefore : AllBlank before) (hafter : AllBlank after)
    (hitem : IsReadAs item text) (hitems : ItemsAreRead items more)
    (hends : ∀ rest, NumberEnds (more ++ ']' :: rest)) :
    ItemsAreRead (item :: items) (before ++ ',' :: (after ++ (text ++ more))) := by
  intro steps rest hsteps
  obtain ⟨c, tail, rfl, hc, hend⟩ := hitem.starts
  have hread := fun n => hitem.reads n _ (hends rest)
  have hmore := fun n => hitems n rest
  simp only [List.cons_append, List.append_assoc, List.length_cons, List.length_append]
    at hread hmore hsteps ⊢
  obtain ⟨steps, rfl⟩ : ∃ n, steps = n + 1 := ⟨steps - 1, by omega⟩
  rw [readMoreItems_blanks hbefore]
  exact readMoreItems_cons hafter hc hend (hread steps (by omega)) (hmore steps (by omega))

end items

section entries

variable {name : String} {value : Json} {members entries : List (String × Json)}
  {blanks outer quoted before after text more : List Char}

theorem isReadAs_emptyObject (hblanks : AllBlank blanks) :
    IsReadAs (.object []) ('\x7b' :: (blanks ++ ['\x7d'])) where
  starts := ⟨'\x7b', _, rfl, rfl, by decide⟩
  reads steps rest _ hsteps := by
    rw [List.cons_append, List.length_cons] at hsteps
    obtain ⟨steps, rfl⟩ : ∃ n, steps = n + 2 := ⟨steps - 2, by omega⟩
    have hread : Yields (readEntries (steps + 1) (blanks ++ ['\x7d'] ++ rest)) (some []) rest := by
      rw [List.append_assoc, readEntries_blanks hblanks]
      exact readEntries_nil
    exact readValueIn_object hread

/-- An object is read as its members in order, in whichever order they stand. -/
theorem isReadAs_object (horder : ((name, value) :: entries).Perm members)
    (hsorted : (object members).Sorted) (hblanks : AllBlank blanks)
    (hname : SpellsString name quoted) (hbefore : AllBlank before) (hafter : AllBlank after)
    (hvalue : IsReadAs value text) (hentries : EntriesAreRead entries more)
    (hends : ∀ rest, NumberEnds (more ++ '\x7d' :: rest)) :
    IsReadAs (.object members) ('\x7b' :: (blanks ++ ((quoted ++ (before ++ ':' :: (after ++ text)))
      ++ (more ++ ['\x7d'])))) where
  starts := ⟨'\x7b', _, rfl, rfl, by decide⟩
  reads steps rest _ hsteps := by
    have hmembers : ofEntries ((name, value) :: entries) = members :=
      ofEntries_eq_of_perm horder (List.pairwise_map.mpr hsorted.pairwise)
    have hread := fun n => hvalue.reads n _ (hends rest)
    have hmore := fun n => hentries n rest
    simp only [List.cons_append, List.nil_append, List.append_assoc, List.length_cons,
      List.length_append] at hread hmore hsteps ⊢
    obtain ⟨steps, rfl⟩ : ∃ n, steps = n + 2 := ⟨steps - 2, by omega⟩
    rw [← hmembers]
    exact readValueIn_object (readEntries_cons hblanks hname hbefore hafter
      (hread steps (by omega)) (hmore steps (by omega)))

theorem entriesAreRead_nil (hblanks : AllBlank blanks) : EntriesAreRead [] blanks := by
  intro steps rest hsteps
  obtain ⟨steps, rfl⟩ : ∃ n, steps = n + 1 := ⟨steps - 1, by omega⟩
  exact readMoreEntries_nil hblanks

theorem entriesAreRead_cons (houter : AllBlank outer) (hblanks : AllBlank blanks)
    (hname : SpellsString name quoted) (hbefore : AllBlank before) (hafter : AllBlank after)
    (hvalue : IsReadAs value text) (hentries : EntriesAreRead entries more)
    (hends : ∀ rest, NumberEnds (more ++ '\x7d' :: rest)) :
    EntriesAreRead ((name, value) :: entries)
      (outer ++ ',' :: (blanks ++ ((quoted ++ (before ++ ':' :: (after ++ text))) ++ more))) := by
  intro steps rest hsteps
  have hread := fun n => hvalue.reads n _ (hends rest)
  have hmore := fun n => hentries n rest
  simp only [List.cons_append, List.append_assoc, List.length_cons, List.length_append]
    at hread hmore hsteps ⊢
  obtain ⟨steps, rfl⟩ : ∃ n, steps = n + 1 := ⟨steps - 1, by omega⟩
  rw [readMoreEntries_blanks houter]
  exact readMoreEntries_cons hblanks hname hbefore hafter (hread steps (by omega))
    (hmore steps (by omega))

end entries

/-- The entries of a sorted object have sorted values. -/
theorem Sorted.of_perm {members entries : List (String × Json)} {entry : String × Json}
    (h : (object members).Sorted) (horder : (entry :: entries).Perm members) :
    entry.2.Sorted ∧ ∀ e ∈ entries, e.2.Sorted := by
  unfold Sorted at h
  have hmem := sortedMembers_iff.mp h.2
  exact ⟨hmem _ (horder.mem_iff.mp List.mem_cons_self),
    fun e he => hmem _ (horder.mem_iff.mp (List.mem_cons_of_mem _ he))⟩

mutual

/-- **A text that stands for a sorted value is read as the value.** -/
theorem Spells.isReadAs : ∀ {value : Json} {text : List Char}, Spells value text → value.Sorted →
    IsReadAs value text
  | _, _, .null, _ => isReadAs_null
  | _, _, .true, _ => isReadAs_true
  | _, _, .false, _ => isReadAs_false
  | _, _, .integer h, _ => isReadAs_integer h
  | _, _, .string h, _ => isReadAs_string h
  | _, _, .emptyArray hblanks, _ => isReadAs_emptyArray hblanks
  | _, _, .array hblanks hitem hitems, hsorted =>
      isReadAs_array hblanks (hitem.isReadAs hsorted.items.1) (hitems.areRead hsorted.items.2)
        fun _ => hitems.numberEnds (numberEnds_cons.mpr (by decide))
  | _, _, .emptyObject hblanks, _ => isReadAs_emptyObject hblanks
  | _, _, .object horder hblanks (.mk hname hbefore hafter hvalue) hentries, hsorted =>
      isReadAs_object horder hsorted hblanks hname hbefore hafter
        (hvalue.isReadAs (hsorted.of_perm horder).1) (hentries.areRead (hsorted.of_perm horder).2)
        fun _ => hentries.numberEnds (numberEnds_cons.mpr (by decide))

theorem SpellsItems.areRead : ∀ {items : List Json} {text : List Char}, SpellsItems items text →
    SortedItems items → ItemsAreRead items text
  | _, _, .nil hblanks, _ => itemsAreRead_nil hblanks
  | _, _, .cons hbefore hafter hitem hitems, hsorted =>
      itemsAreRead_cons hbefore hafter (hitem.isReadAs hsorted.1) (hitems.areRead hsorted.2)
        fun _ => hitems.numberEnds (numberEnds_cons.mpr (by decide))

theorem SpellsEntries.areRead : ∀ {entries : List (String × Json)} {text : List Char},
    SpellsEntries entries text → (∀ e ∈ entries, e.2.Sorted) → EntriesAreRead entries text
  | _, _, .nil hblanks, _ => entriesAreRead_nil hblanks
  | _, _, .cons houter hblanks (.mk hname hbefore hafter hvalue) hentries, hsorted =>
      entriesAreRead_cons houter hblanks hname hbefore hafter
        (hvalue.isReadAs (List.forall_mem_cons.mp hsorted).1)
        (hentries.areRead (List.forall_mem_cons.mp hsorted).2)
        fun _ => hentries.numberEnds (numberEnds_cons.mpr (by decide))

end

end StrategyDoc.Json
