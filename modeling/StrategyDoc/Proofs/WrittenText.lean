import StrategyDoc.Json.Printer
import StrategyDoc.Proofs.Readers

/-! # Written values are read again

The text of a value in a layout whose separators are blanks is read as the value with its
members sorted and each number in it replaced by what the text of the number is read as
(`parse?_eq_ok_iff_of_write`).  If all numbers are read back from their own texts, as integers
in range are, this is the sorted value (`parse?_write`).  Blanks around the text do not matter.

The induction is on the value, and each reader is given twice as many steps as there is
text: of the two steps that lead from an item to the next one, the second takes a
character. -/

namespace StrategyDoc.Json

/-! ### Numbers that are read again -/

/-- The text of the number is read as the result, or not read if there is none, whatever
stands after it that does not belong to a number. -/
structure Number.ReadAs (n : Number) (result : Option Number) : Prop where
  starts : ∀ rest, NumberStarts (n.text ++ rest)
  reads : ∀ rest, NumberEnds rest → Yields (readSigned (n.text ++ rest)) result rest

/-- The text of the number is read as the number. -/
def Number.ReadsBack (n : Number) : Prop := n.ReadAs (some n)

theorem Number.readsBack_integer {value : Int} (h : Number.InRange value) :
    (Number.integer value).ReadsBack where
  starts := numberStarts_integerText value
  reads _ hrest := yields_some_iff.mpr (readSigned_integerText h hrest)

mutual

/-- All numbers in the value have the property. -/
def AllNumbers (p : Number → Prop) : Json → Prop
  | .number n => p n
  | .array items => AllNumbersOfItems p items
  | .object members => AllNumbersOfMembers p members
  | _ => True

def AllNumbersOfItems (p : Number → Prop) : List Json → Prop
  | [] => True
  | item :: rest => item.AllNumbers p ∧ AllNumbersOfItems p rest

def AllNumbersOfMembers (p : Number → Prop) : List (String × Json) → Prop
  | [] => True
  | (_, value) :: rest => value.AllNumbers p ∧ AllNumbersOfMembers p rest

end

section allNumbers

variable {p q r : Number → Prop}

theorem allNumbersOfItems_iff {items : List Json} :
    AllNumbersOfItems p items ↔ ∀ item ∈ items, item.AllNumbers p := by
  induction items with
  | nil => simp [AllNumbersOfItems]
  | cons item rest ih => simp [AllNumbersOfItems, ih]

theorem allNumbersOfMembers_iff {members : List (String × Json)} :
    AllNumbersOfMembers p members ↔ ∀ m ∈ members, m.2.AllNumbers p := by
  induction members with
  | nil => simp [AllNumbersOfMembers]
  | cons m rest ih => simp [AllNumbersOfMembers, ih]

mutual

theorem AllNumbers.combine (h : ∀ n, p n → q n → r n) : ∀ {value : Json}, value.AllNumbers p →
    value.AllNumbers q → value.AllNumbers r
  | .null, _, _ => trivial
  | .bool _, _, _ => trivial
  | .number n, hp, hq => h n hp hq
  | .string _, _, _ => trivial
  | .array _, hp, hq => AllNumbersOfItems.combine h hp hq
  | .object _, hp, hq => AllNumbersOfMembers.combine h hp hq

theorem AllNumbersOfItems.combine (h : ∀ n, p n → q n → r n) : ∀ {items : List Json},
    AllNumbersOfItems p items → AllNumbersOfItems q items → AllNumbersOfItems r items
  | [], _, _ => trivial
  | _ :: _, ⟨hp, hps⟩, ⟨hq, hqs⟩ =>
      ⟨AllNumbers.combine h hp hq, AllNumbersOfItems.combine h hps hqs⟩

theorem AllNumbersOfMembers.combine (h : ∀ n, p n → q n → r n) :
    ∀ {members : List (String × Json)}, AllNumbersOfMembers p members →
      AllNumbersOfMembers q members → AllNumbersOfMembers r members
  | [], _, _ => trivial
  | (_, _) :: _, ⟨hp, hps⟩, ⟨hq, hqs⟩ =>
      ⟨AllNumbers.combine h hp hq, AllNumbersOfMembers.combine h hps hqs⟩

end

theorem AllNumbers.mono (h : ∀ n, p n → q n) {value : Json} (hp : value.AllNumbers p) :
    value.AllNumbers q :=
  hp.combine (fun n hn _ => h n hn) hp

end allNumbers

/-! ### Values that are read again -/

section reread

variable (f : Number → Option Number)

mutual

/-- The sorted value with each number in it replaced by the result for it, unless one of them
has none. -/
def reread : Json → Option Json
  | .number n => (f n).map .number
  | .array items => (rereadItems items).map .array
  | .object members => (rereadMembers members).map fun members => .object (ofEntries members)
  | value => some value

def rereadItems : List Json → Option (List Json)
  | [] => some []
  | item :: rest => item.reread.bind fun item => (rereadItems rest).map (item :: ·)

def rereadMembers : List (String × Json) → Option (List (String × Json))
  | [] => some []
  | (name, value) :: rest =>
    value.reread.bind fun value => (rereadMembers rest).map ((name, value) :: ·)

end

end reread

mutual

theorem reread_some : ∀ value : Json, value.reread some = some value.sort
  | .null => rfl
  | .bool _ => rfl
  | .number _ => rfl
  | .string _ => rfl
  | .array items => by rw [reread, sort, rereadItems_some items, Option.map_some]
  | .object members => by rw [reread, sort, rereadMembers_some members, Option.map_some]

theorem rereadItems_some : ∀ items : List Json, rereadItems some items = some (sortItems items)
  | [] => rfl
  | item :: rest => by
      rw [rereadItems, sortItems, reread_some item, rereadItems_some rest]
      rfl

theorem rereadMembers_some : ∀ members : List (String × Json),
    rereadMembers some members = some (sortMembers members)
  | [] => rfl
  | (name, value) :: rest => by
      rw [rereadMembers, sortMembers, reread_some value, rereadMembers_some rest]
      rfl

end

/-! ### Layouts of blanks -/

/-- A layout that separates tokens by blanks only. -/
structure Layout.Blank (layout : Layout) : Prop where
  lineBreak : ∀ depth, AllBlank (layout.lineBreak depth).toList
  colon : ∃ before after, layout.colon.toList = before ++ ':' :: after ∧
    AllBlank before ∧ AllBlank after

theorem Layout.blank_compact : Layout.compact.Blank where
  lineBreak _ := nofun
  colon := ⟨[], [], rfl, nofun, nofun⟩

theorem Layout.blank_indented : Layout.indented.Blank where
  lineBreak depth := by
    intro c hc
    rw [Layout.indented, String.toList_ofList] at hc
    rcases List.mem_cons.mp hc with rfl | hc
    · rfl
    · rw [List.eq_of_mem_replicate hc]
      rfl
  colon := ⟨[], [' '], rfl, nofun, by simp [AllBlank, isBlank]⟩

/-! ### Texts of items -/

section texts

variable (layout : Layout) (depth : Nat)

/-- The texts that follow the first one of an array or object. -/
def Layout.moreText (texts : List String) : List Char :=
  texts.flatMap fun text => ',' :: ((layout.lineBreak depth).toList ++ text.toList)

theorem Layout.moreText_cons (text : String) (texts : List String) :
    layout.moreText depth (text :: texts)
      = ',' :: ((layout.lineBreak depth).toList ++ (text.toList ++ layout.moreText depth texts)) := by
  simp [Layout.moreText]

theorem Layout.toList_intercalate (text : String) (texts : List String) :
    (("," ++ layout.lineBreak depth).intercalate (text :: texts)).toList
      = text.toList ++ layout.moreText depth texts := by
  rw [String.toList_intercalate]
  induction texts generalizing text with
  | nil => simp [Layout.moreText]
  | cons next rest ih =>
      have hnext := ih next
      rw [List.map_cons] at hnext
      rw [List.map_cons, List.map_cons, List.intercalate_cons_cons, hnext, Layout.moreText_cons]
      simp

theorem Layout.toList_enclose_nil (opening closing : String) :
    (layout.enclose depth opening closing []).toList = opening.toList ++ closing.toList := by
  simp [Layout.enclose]

theorem Layout.toList_enclose_cons (opening closing text : String) (texts : List String) :
    (layout.enclose depth opening closing (text :: texts)).toList
      = opening.toList ++ ((layout.lineBreak (depth + 1)).toList ++ (text.toList
        ++ (layout.moreText (depth + 1) texts
        ++ ((layout.lineBreak depth).toList ++ closing.toList)))) := by
  simp only [Layout.enclose, List.isEmpty_cons, Bool.false_eq_true, if_false,
    String.toList_append, Layout.toList_intercalate, List.append_assoc]

/-! ### Texts of values -/

theorem toList_write_null : (null.write layout depth).toList = ['n', 'u', 'l', 'l'] := by
  change "null".toList = _
  rfl

theorem toList_write_true : ((bool true).write layout depth).toList = ['t', 'r', 'u', 'e'] := by
  change "true".toList = _
  rfl

theorem toList_write_false :
    ((bool false).write layout depth).toList = ['f', 'a', 'l', 's', 'e'] := by
  change "false".toList = _
  rfl

theorem toList_write_number (n : Number) : ((number n).write layout depth).toList = n.text :=
  String.toList_ofList

theorem toList_write_string (s : String) :
    ((string s).write layout depth).toList = '"' :: (s.toList.flatMap escape ++ ['"']) :=
  String.toList_ofList

theorem toList_write_array_nil : ((array []).write layout depth).toList = ['[', ']'] := by
  rw [write, writeItems, Layout.toList_enclose_nil]
  rfl

theorem toList_write_array_cons (first : Json) (others : List Json) :
    ((array (first :: others)).write layout depth).toList
      = '[' :: ((layout.lineBreak (depth + 1)).toList
        ++ ((first.write layout (depth + 1)).toList
        ++ (layout.moreText (depth + 1) (writeItems layout (depth + 1) others)
        ++ ((layout.lineBreak depth).toList ++ [']'])))) := by
  rw [write, writeItems, Layout.toList_enclose_cons]
  rfl

theorem toList_write_object_nil : ((object []).write layout depth).toList = ['\x7b', '\x7d'] := by
  rw [write, writeMembers, Layout.toList_enclose_nil]
  rfl

theorem toList_write_object_cons (name : String) (first : Json)
    (others : List (String × Json)) :
    ((object ((name, first) :: others)).write layout depth).toList
      = '\x7b' :: ((layout.lineBreak (depth + 1)).toList
        ++ (quote name ++ (layout.colon.toList ++ ((first.write layout (depth + 1)).toList
        ++ (layout.moreText (depth + 1) (writeMembers layout (depth + 1) others)
        ++ ((layout.lineBreak depth).toList ++ ['\x7d'])))))) := by
  rw [write, writeMembers, Layout.toList_enclose_cons]
  simp only [String.toList_append, String.toList_ofList, List.append_assoc]
  rfl

end texts

/-! ### Reading what was written -/

/-- The text of the value is read as the function says for its numbers, whatever goes on
behind it. -/
structure IsReread (f : Number → Option Number) (layout : Layout) (value : Json) : Prop where
  starts : ∀ depth, ∃ c text, (value.write layout depth).toList = c :: text ∧
    isBlank c = false ∧ c ≠ ']'
  reads : ∀ depth steps rest, NumberEnds rest →
    2 * ((value.write layout depth).toList ++ rest).length + 1 ≤ steps →
    Yields (readValueIn steps ((value.write layout depth).toList ++ rest)) (value.reread f) rest

/-- The texts of further items are read up to the end of their array. -/
def ItemsReread (f : Number → Option Number) (layout : Layout) (items : List Json) : Prop :=
  ∀ depth outer steps rest,
    2 * (layout.moreText depth (writeItems layout depth items)
      ++ ((layout.lineBreak outer).toList ++ ']' :: rest)).length + 1 ≤ steps →
    Yields (readMoreItems steps (layout.moreText depth (writeItems layout depth items)
      ++ ((layout.lineBreak outer).toList ++ ']' :: rest))) (rereadItems f items) rest

/-- The texts of further members are read up to the end of their object. -/
def MembersReread (f : Number → Option Number) (layout : Layout)
    (members : List (String × Json)) : Prop :=
  ∀ depth outer steps rest,
    2 * (layout.moreText depth (writeMembers layout depth members)
      ++ ((layout.lineBreak outer).toList ++ '\x7d' :: rest)).length + 1 ≤ steps →
    Yields (readMoreEntries steps (layout.moreText depth (writeMembers layout depth members)
      ++ ((layout.lineBreak outer).toList ++ '\x7d' :: rest))) (rereadMembers f members) rest

/-- Behind an item there is a comma, a blank or the end of the array or object. -/
theorem Layout.Blank.numberEnds {layout : Layout} (h : layout.Blank) {depth outer : Nat}
    {texts : List String} {c : Char} {rest : List Char} (hc : NumberEnds (c :: rest)) :
    NumberEnds (layout.moreText depth texts ++ ((layout.lineBreak outer).toList ++ c :: rest)) := by
  cases texts with
  | cons text texts =>
      rw [Layout.moreText_cons]
      exact numberEnds_cons.mpr (by decide)
  | nil => exact numberEnds_blanks (h.lineBreak outer) hc

section scalars

variable (f : Number → Option Number) (layout : Layout)

theorem isReread_null : IsReread f layout null where
  starts depth := ⟨'n', _, toList_write_null layout depth, rfl, by decide⟩
  reads depth steps rest _ hsteps := by
    obtain ⟨steps, rfl⟩ : ∃ n, steps = n + 1 := ⟨steps - 1, by omega⟩
    rw [toList_write_null]
    rfl

theorem isReread_bool (b : Bool) : IsReread f layout (bool b) where
  starts depth := by
    cases b with
    | true => exact ⟨'t', _, toList_write_true layout depth, rfl, by decide⟩
    | false => exact ⟨'f', _, toList_write_false layout depth, rfl, by decide⟩
  reads depth steps rest _ hsteps := by
    obtain ⟨steps, rfl⟩ : ∃ n, steps = n + 1 := ⟨steps - 1, by omega⟩
    cases b with
    | true =>
        rw [toList_write_true]
        rfl
    | false =>
        rw [toList_write_false]
        rfl

theorem isReread_number {n : Number} (h : n.ReadAs (f n)) : IsReread f layout (number n) where
  starts depth := by
    obtain ⟨c, text, htext, hc⟩ := h.starts []
    rw [List.append_nil] at htext
    refine ⟨c, text, (toList_write_number layout depth n).trans htext, ?_⟩
    rcases hc with rfl | hc
    · exact ⟨rfl, by decide⟩
    · refine ⟨isBlank_eq_false_of_isDigit hc, ?_⟩
      rintro rfl
      exact absurd hc (by decide)
  reads depth steps rest hrest hsteps := by
    obtain ⟨steps, rfl⟩ : ∃ n, steps = n + 1 := ⟨steps - 1, by omega⟩
    rw [toList_write_number]
    exact readValueIn_number (h.starts rest) (h.reads rest hrest)

theorem isReread_string (s : String) : IsReread f layout (string s) where
  starts depth := ⟨'"', _, toList_write_string layout depth s, rfl, by decide⟩
  reads depth steps rest _ hsteps := by
    obtain ⟨steps, rfl⟩ : ∃ n, steps = n + 1 := ⟨steps - 1, by omega⟩
    rw [toList_write_string, ← quote]
    exact readValueIn_string (spellsString_quote s)

theorem isReread_array_nil : IsReread f layout (array []) where
  starts depth := ⟨'[', _, toList_write_array_nil layout depth, rfl, by decide⟩
  reads depth steps rest _ hsteps := by
    rw [toList_write_array_nil] at hsteps ⊢
    obtain ⟨steps, rfl⟩ : ∃ n, steps = n + 2 := ⟨steps - 2, by simp at hsteps; omega⟩
    exact readValueIn_array readItems_nil

theorem isReread_object_nil : IsReread f layout (object []) where
  starts depth := ⟨'\x7b', _, toList_write_object_nil layout depth, rfl, by decide⟩
  reads depth steps rest _ hsteps := by
    rw [toList_write_object_nil] at hsteps ⊢
    obtain ⟨steps, rfl⟩ : ∃ n, steps = n + 2 := ⟨steps - 2, by simp at hsteps; omega⟩
    exact readValueIn_object readEntries_nil

end scalars

section items

variable {f : Number → Option Number} {layout : Layout} (h : layout.Blank) {first : Json}
  {items : List Json}

include h

theorem itemsReread_nil : ItemsReread f layout [] := by
  intro depth outer steps rest hsteps
  obtain ⟨steps, rfl⟩ : ∃ n, steps = n + 1 := ⟨steps - 1, by omega⟩
  exact readMoreItems_nil (h.lineBreak outer)

theorem itemsReread_cons (hfirst : IsReread f layout first)
    (hitems : ItemsReread f layout items) : ItemsReread f layout (first :: items) := by
  intro depth outer steps rest hsteps
  have htail : NumberEnds (layout.moreText depth (writeItems layout depth items)
      ++ ((layout.lineBreak outer).toList ++ ']' :: rest)) :=
    h.numberEnds (numberEnds_cons.mpr (by decide))
  obtain ⟨c, text, htext, hc, hend⟩ := hfirst.starts depth
  have hread := fun n => hfirst.reads depth n _ htail
  have hmore := fun n => hitems depth outer n rest
  rw [writeItems, Layout.moreText_cons] at hsteps ⊢
  rw [htext] at hread hsteps ⊢
  simp only [List.cons_append, List.append_assoc, List.length_cons, List.length_append]
    at hread hmore hsteps ⊢
  obtain ⟨steps, rfl⟩ : ∃ n, steps = n + 1 := ⟨steps - 1, by omega⟩
  exact readMoreItems_cons (h.lineBreak depth) hc hend (hread steps (by omega))
    (hmore steps (by omega))

theorem isReread_array_cons (hfirst : IsReread f layout first)
    (hitems : ItemsReread f layout items) : IsReread f layout (array (first :: items)) where
  starts depth := ⟨'[', _, toList_write_array_cons layout depth first items, rfl, by decide⟩
  reads depth steps rest _ hsteps := by
    have htail : NumberEnds (layout.moreText (depth + 1) (writeItems layout (depth + 1) items)
        ++ ((layout.lineBreak depth).toList ++ ']' :: rest)) :=
      h.numberEnds (numberEnds_cons.mpr (by decide))
    obtain ⟨c, text, htext, hc, hend⟩ := hfirst.starts (depth + 1)
    have hread := fun n => hfirst.reads (depth + 1) n _ htail
    have hmore := fun n => hitems (depth + 1) depth n rest
    rw [toList_write_array_cons] at hsteps ⊢
    rw [htext] at hread hsteps ⊢
    simp only [List.cons_append, List.nil_append, List.append_assoc, List.length_cons,
      List.length_append] at hread hmore hsteps ⊢
    obtain ⟨steps, rfl⟩ : ∃ n, steps = n + 2 := ⟨steps - 2, by omega⟩
    exact readValueIn_array (readItems_cons (h.lineBreak (depth + 1)) hc hend
      (hread steps (by omega)) (hmore steps (by omega)))

end items

section members

variable {f : Number → Option Number} {layout : Layout} (h : layout.Blank) {name : String}
  {first : Json} {members : List (String × Json)}

include h

theorem membersReread_nil : MembersReread f layout [] := by
  intro depth outer steps rest hsteps
  obtain ⟨steps, rfl⟩ : ∃ n, steps = n + 1 := ⟨steps - 1, by omega⟩
  exact readMoreEntries_nil (h.lineBreak outer)

theorem membersReread_cons (hfirst : IsReread f layout first)
    (hmembers : MembersReread f layout members) :
    MembersReread f layout ((name, first) :: members) := by
  intro depth outer steps rest hsteps
  have htail : NumberEnds (layout.moreText depth (writeMembers layout depth members)
      ++ ((layout.lineBreak outer).toList ++ '\x7d' :: rest)) :=
    h.numberEnds (numberEnds_cons.mpr (by decide))
  have hread := fun n => hfirst.reads depth n _ htail
  have hmore := fun n => hmembers depth outer n rest
  obtain ⟨before, after, hcolon, hbefore, hafter⟩ := h.colon
  rw [writeMembers, Layout.moreText_cons] at hsteps ⊢
  simp only [String.toList_append, String.toList_ofList, hcolon, List.cons_append,
    List.append_assoc, List.length_cons, List.length_append] at hread hmore hsteps ⊢
  obtain ⟨steps, rfl⟩ : ∃ n, steps = n + 1 := ⟨steps - 1, by omega⟩
  exact readMoreEntries_cons (h.lineBreak depth) (spellsString_quote name) hbefore hafter
    (hread steps (by omega)) (hmore steps (by omega))

theorem isReread_object_cons (hfirst : IsReread f layout first)
    (hmembers : MembersReread f layout members) :
    IsReread f layout (object ((name, first) :: members)) where
  starts depth :=
    ⟨'\x7b', _, toList_write_object_cons layout depth name first members, rfl, by decide⟩
  reads depth steps rest _ hsteps := by
    have htail : NumberEnds (layout.moreText (depth + 1) (writeMembers layout (depth + 1) members)
        ++ ((layout.lineBreak depth).toList ++ '\x7d' :: rest)) :=
      h.numberEnds (numberEnds_cons.mpr (by decide))
    have hread := fun n => hfirst.reads (depth + 1) n _ htail
    have hmore := fun n => hmembers (depth + 1) depth n rest
    obtain ⟨before, after, hcolon, hbefore, hafter⟩ := h.colon
    rw [toList_write_object_cons] at hsteps ⊢
    simp only [hcolon, List.cons_append, List.nil_append, List.append_assoc, List.length_cons,
      List.length_append] at hread hmore hsteps ⊢
    obtain ⟨steps, rfl⟩ : ∃ n, steps = n + 2 := ⟨steps - 2, by omega⟩
    exact readValueIn_object (readEntries_cons (h.lineBreak (depth + 1)) (spellsString_quote name)
      hbefore hafter (hread steps (by omega)) (hmore steps (by omega)))

end members

section written

variable {f : Number → Option Number} {layout : Layout} (h : layout.Blank)

include h

mutual

theorem isReread : ∀ {value : Json}, value.AllNumbers (fun n => n.ReadAs (f n)) →
    IsReread f layout value
  | .null, _ => isReread_null f layout
  | .bool b, _ => isReread_bool f layout b
  | .number _, hn => isReread_number f layout hn
  | .string s, _ => isReread_string f layout s
  | .array [], _ => isReread_array_nil f layout
  | .array (_ :: _), hitems =>
      isReread_array_cons h (isReread hitems.1) (itemsReread hitems.2)
  | .object [], _ => isReread_object_nil f layout
  | .object ((_, _) :: _), hmembers =>
      isReread_object_cons h (isReread hmembers.1) (membersReread hmembers.2)

theorem itemsReread : ∀ {items : List Json},
    AllNumbersOfItems (fun n => n.ReadAs (f n)) items → ItemsReread f layout items
  | [], _ => itemsReread_nil h
  | _ :: _, hitems => itemsReread_cons h (isReread hitems.1) (itemsReread hitems.2)

theorem membersReread : ∀ {members : List (String × Json)},
    AllNumbersOfMembers (fun n => n.ReadAs (f n)) members → MembersReread f layout members
  | [], _ => membersReread_nil h
  | (_, _) :: _, hmembers =>
      membersReread_cons h (isReread hmembers.1) (membersReread hmembers.2)

end

/-- **The text of a value, with blanks around it, is read as what its numbers are read as.** -/
theorem parse?_eq_ok_iff_of_write {value : Json}
    (hvalue : value.AllNumbers fun n => n.ReadAs (f n)) {depth : Nat} {text : String}
    {before after : List Char}
    (htext : text.toList = before ++ ((value.write layout depth).toList ++ after))
    (hbefore : AllBlank before) (hafter : AllBlank after) {read : Json} :
    parse? text = .ok read ↔ value.reread f = some read := by
  have hends : NumberEnds (after ++ []) := numberEnds_blanks hafter numberEnds_nil
  rw [List.append_nil] at hends
  have hskip : skipBlanks after = [] := by
    have happend := skipBlanks_append hafter []
    rwa [List.append_nil] at happend
  have hread : Yields (readValue text.toList) (value.reread f) after := by
    rw [htext]
    unfold readValue
    rw [readValueIn_blanks hbefore]
    apply (isReread h hvalue).reads depth _ after hends
    simp only [List.length_append]
    omega
  exact parse?_eq_ok_iff_of_yields hread hskip

theorem parse?_write_eq_ok_iff {value : Json} (hvalue : value.AllNumbers fun n => n.ReadAs (f n))
    {depth : Nat} {read : Json} :
    parse? (value.write layout depth) = .ok read ↔ value.reread f = some read := by
  have htext : (value.write layout depth).toList
      = [] ++ ((value.write layout depth).toList ++ []) := by
    rw [List.nil_append, List.append_nil]
  exact parse?_eq_ok_iff_of_write h hvalue htext nofun nofun

end written

/-- **The text of a value is read as the sorted value if its numbers are read back.** -/
theorem parse?_write {layout : Layout} (h : layout.Blank) {value : Json}
    (hvalue : value.AllNumbers Number.ReadsBack) (depth : Nat) :
    parse? (value.write layout depth) = .ok value.sort :=
  (parse?_write_eq_ok_iff h hvalue).mpr value.reread_some

end StrategyDoc.Json
