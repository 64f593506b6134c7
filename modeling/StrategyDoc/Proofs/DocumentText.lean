import Mathlib.Data.List.TakeWhile
import StrategyDoc.Files.Disk
import StrategyDoc.Proofs.ReportText
import StrategyDoc.Proofs.Spelling

/-! # Reading a document

A document stands in a text with blanks around it (`IsTextOf`).  What is written of it is such
a text, in either layout and with the members of objects in any order (`spells_write`).  Every
text of a document is read as the document, so the verdict and the reports do not depend on
the text, and a text with anything but blanks behind it is refused where the rest begins
(`ofText_of_isTextOf`). -/

namespace StrategyDoc.Json

/-- The texts of a document, with blanks around it. -/
inductive IsTextOf (value : Json) : List Char → Prop
  | mk {before text after : List Char} (hbefore : AllBlank before) (hafter : AllBlank after)
      (h : Spells value text) : IsTextOf value (before ++ (text ++ after))

/-! ### Values in another order -/

mutual

/-- The values differ at most in the order of the members of objects. -/
inductive Rearranged : Json → Json → Prop
  | null : Rearranged .null .null
  | bool (b : Bool) : Rearranged (.bool b) (.bool b)
  | number (n : Number) : Rearranged (.number n) (.number n)
  | string (s : String) : Rearranged (.string s) (.string s)
  | array {items others : List Json} (h : RearrangedItems items others) :
      Rearranged (.array items) (.array others)
  | object {members entries others : List (String × Json)} (horder : entries.Perm members)
      (h : RearrangedEntries entries others) : Rearranged (.object members) (.object others)

inductive RearrangedItems : List Json → List Json → Prop
  | nil : RearrangedItems [] []
  | cons {item other : Json} {items others : List Json} (hfirst : Rearranged item other)
      (hrest : RearrangedItems items others) : RearrangedItems (item :: items) (other :: others)

inductive RearrangedEntries : List (String × Json) → List (String × Json) → Prop
  | nil : RearrangedEntries [] []
  | cons {name : String} {value other : Json} {entries others : List (String × Json)}
      (hfirst : Rearranged value other) (hrest : RearrangedEntries entries others) :
      RearrangedEntries ((name, value) :: entries) ((name, other) :: others)

end

/-! ### Written texts -/

theorem allBlank_nil : AllBlank [] := nofun

section written

variable {layout : Layout} (h : layout.Blank)

include h

theorem spellsEntry_write (name : String) {value other : Json} {depth : Nat}
    (hvalue : Spells value (other.write layout depth).toList) :
    SpellsEntry (name, value)
      (quote name ++ (layout.colon.toList ++ (other.write layout depth).toList)) := by
  obtain ⟨before, after, hcolon, hbefore, hafter⟩ := h.colon
  rw [hcolon, List.append_assoc, List.cons_append]
  exact .mk (spellsString_quote name) hbefore hafter hvalue

mutual

/-- What is written of a value in any order stands for the value. -/
theorem spells_write : ∀ {value other : Json}, Rearranged value other →
    value.AllNumbers Number.IsInteger → ∀ depth, Spells value (other.write layout depth).toList
  | _, _, .null, _, depth => by
      rw [toList_write_null]
      exact .null
  | _, _, .bool true, _, depth => by
      rw [toList_write_true]
      exact .true
  | _, _, .bool false, _, depth => by
      rw [toList_write_false]
      exact .false
  | _, _, .number (.integer value), hnumbers, depth => by
      rw [toList_write_number]
      exact .integer hnumbers
  | _, _, .number (.float x), hnumbers, depth => hnumbers.elim
  | _, _, .string s, _, depth => by
      rw [toList_write_string, ← quote]
      exact .string (spellsString_quote s)
  | _, _, .array .nil, _, depth => by
      rw [toList_write_array_nil]
      exact .emptyArray allBlank_nil
  | _, _, .array (.cons hfirst hrest), hnumbers, depth => by
      have hitem := spells_write hfirst hnumbers.1 (depth + 1)
      have hitems := spellsItems_write hrest hnumbers.2 (depth + 1) depth
      have harray := Spells.array (h.lineBreak (depth + 1)) hitem hitems
      rw [toList_write_array_cons]
      simpa only [List.append_assoc] using harray
  | _, _, .object horder .nil, _, depth => by
      cases List.nil_perm.mp horder
      rw [toList_write_object_nil]
      exact .emptyObject allBlank_nil
  | _, .object ((name, _) :: _), .object horder (.cons hfirst hrest), hnumbers, depth => by
      have hall := fun e he => allNumbersOfMembers_iff.mp hnumbers e (horder.mem_iff.mp he)
      obtain ⟨hfirstNumbers, hrestNumbers⟩ := List.forall_mem_cons.mp hall
      have hvalue := spells_write hfirst hfirstNumbers (depth + 1)
      have hentries := spellsEntries_write hrest hrestNumbers (depth + 1) depth
      have hobject := Spells.object horder (h.lineBreak (depth + 1))
        (spellsEntry_write h name hvalue) hentries
      rw [toList_write_object_cons]
      simpa only [List.append_assoc] using hobject

theorem spellsItems_write : ∀ {items others : List Json}, RearrangedItems items others →
    AllNumbersOfItems Number.IsInteger items → ∀ depth outer,
    SpellsItems items (layout.moreText depth (writeItems layout depth others)
      ++ (layout.lineBreak outer).toList)
  | _, _, .nil, _, depth, outer => .nil (h.lineBreak outer)
  | _, _, .cons hfirst hrest, hnumbers, depth, outer => by
      have hitem := spells_write hfirst hnumbers.1 depth
      have hitems := spellsItems_write hrest hnumbers.2 depth outer
      have hcons := SpellsItems.cons allBlank_nil (h.lineBreak depth) hitem hitems
      rw [writeItems, Layout.moreText_cons]
      simpa only [List.nil_append, List.cons_append, List.append_assoc] using hcons

theorem spellsEntries_write : ∀ {entries others : List (String × Json)},
    RearrangedEntries entries others → (∀ e ∈ entries, e.2.AllNumbers Number.IsInteger) →
    ∀ depth outer, SpellsEntries entries (layout.moreText depth (writeMembers layout depth others)
      ++ (layout.lineBreak outer).toList)
  | _, _, .nil, _, depth, outer => .nil (h.lineBreak outer)
  | (name, _) :: _, _, .cons hfirst hrest, hnumbers, depth, outer => by
      obtain ⟨hfirstNumbers, hrestNumbers⟩ := List.forall_mem_cons.mp hnumbers
      have hvalue := spells_write hfirst hfirstNumbers depth
      have hentries := spellsEntries_write hrest hrestNumbers depth outer
      have hcons := SpellsEntries.cons allBlank_nil (h.lineBreak depth)
        (spellsEntry_write h name hvalue) hentries
      rw [writeMembers, Layout.moreText_cons]
      simpa only [String.toList_append, String.toList_ofList, List.nil_append, List.cons_append,
        List.append_assoc] using hcons

end

end written

/-! ### Reading -/

section reading

variable {value : Json} {text : List Char}

/-- A document is read up to what follows it. -/
theorem IsTextOf.readValue_eq (h : IsTextOf value text) (hsorted : value.Sorted)
    {more : List Char} (hmore : NumberEnds more) :
    ∃ after, AllBlank after ∧ readValue (text ++ more) = .ok (value, after ++ more) := by
  cases h with
  | @mk before inner after hbefore hafter h =>
      refine ⟨after, hafter, ?_⟩
      have hends := numberEnds_blanks hafter hmore
      rw [List.append_assoc, List.append_assoc]
      unfold readValue
      rw [readValueIn_blanks hbefore]
      apply yields_some_iff.mp
      apply (h.isReadAs hsorted).reads _ _ hends
      simp only [List.length_append]
      omega

theorem IsTextOf.readDocument_eq (h : IsTextOf value text) (hsorted : value.Sorted) :
    readDocument text = .ok value := by
  obtain ⟨after, hafter, hread⟩ := h.readValue_eq hsorted numberEnds_nil
  have hskip := skipBlanks_append hafter []
  rw [List.append_nil] at hread
  rw [readDocument, hread]
  dsimp only [bind, Except.bind]
  rw [hskip]
  rfl

/-- A document with more than blanks behind it is refused where the rest begins. -/
theorem IsTextOf.readDocument_append_eq (h : IsTextOf value text) (hsorted : value.Sorted)
    {blank : Char} (hblank : isBlank blank = true) {more : List Char}
    (hmore : ∃ c ∈ more, isBlank c = false) :
    readDocument (text ++ blank :: more) = .error (.at .trailingCharacters (skipBlanks more)) := by
  obtain ⟨after, hafter, hread⟩ := h.readValue_eq hsorted (numberEnds_of_isBlank hblank)
  have hskip : skipBlanks (after ++ blank :: more) = skipBlanks more := by
    have hone : AllBlank [blank] := by simpa [AllBlank] using hblank
    rw [skipBlanks_append hafter, ← List.singleton_append, skipBlanks_append hone]
  have hne : skipBlanks more ≠ [] := by
    obtain ⟨c, hc, hcblank⟩ := hmore
    intro hnil
    have hall := List.dropWhile_eq_nil_iff.mp hnil c hc
    rw [hcblank] at hall
    cases hall
  rw [readDocument, hread]
  dsimp only [bind, Except.bind]
  rw [hskip]
  split
  · next heq => exact absurd heq hne
  · rfl

end reading

/-! ### Nesting -/

/-- A value inside so many arrays. -/
def enclosed (value : Json) : (depth : Nat) → Json
  | 0 => value
  | depth + 1 => .array [enclosed value depth]

theorem sorted_enclosed {value : Json} (h : value.Sorted) (depth : Nat) :
    (value.enclosed depth).Sorted := by
  induction depth with
  | zero => exact h
  | succ depth ih =>
      rw [enclosed]
      exact sortedItems_iff.mpr (List.forall_mem_singleton.mpr ih)

theorem isTextOf_enclosed {value : Json} {text : List Char} (h : IsTextOf value text)
    (depth : Nat) :
    IsTextOf (value.enclosed depth)
      (List.replicate depth '[' ++ (text ++ List.replicate depth ']')) := by
  induction depth with
  | zero => simpa [enclosed] using h
  | succ depth ih =>
      have harray : ∀ {value text}, IsTextOf value text →
          IsTextOf (.array [value]) ('[' :: (text ++ [']'])) := by
        rintro value _ ⟨hbefore, hafter, h⟩
        have hspells := IsTextOf.mk allBlank_nil allBlank_nil
          (.array hbefore h (.nil hafter))
        simpa using hspells
      have hnested := harray ih
      rw [List.replicate_succ, List.replicate_succ']
      simpa only [enclosed, List.cons_append, List.append_assoc] using hnested

/-! ### Documents from a source -/

section sources

variable {value : Json} {text : String} (source : String)

theorem ofText_eq_ok (h : IsTextOf value text.toList) (hsorted : value.Sorted) :
    ofText source text = .ok value := by
  unfold ofText parse?
  rw [h.readDocument_eq hsorted]
  rfl

theorem ofText_append_eq_error (h : IsTextOf value text.toList) (hsorted : value.Sorted)
    {blank : Char} (hblank : isBlank blank = true) {more : List Char}
    (hmore : ∃ c ∈ more, isBlank c = false) :
    ofText source (text ++ String.ofList (blank :: more))
      = .error (.malformedDocument source
          ((Fault.at .trailingCharacters (skipBlanks more)).message
            (text.toList ++ blank :: more))) := by
  unfold ofText parse?
  rw [String.toList_append, String.toList_ofList, h.readDocument_append_eq hsorted hblank hmore]
  rfl

end sources

/-- **Every text of a document is read as the document.**  The texts that are written of it in
either layout, with its members in any order and blanks around them, are among them.  The
verdict and the reports on the document are those on the value.  Any number of arrays around it
is read as well.  With a blank and more than blanks behind it the text is refused, by a failure
that names the source. -/
theorem ofText_of_isTextOf (source : String) {value : Json} (hsorted : value.Sorted)
    (hnumbers : value.AllNumbers Number.IsInteger) :
    (∀ layout, layout = Layout.compact ∨ layout = Layout.indented →
      ∀ arranged, Rearranged value arranged → ∀ before after, AllBlank before → AllBlank after →
        IsTextOf value (before ++ ((arranged.write layout 0).toList ++ after)))
    ∧ ∀ text : String, IsTextOf value text.toList →
      ofText source text = .ok value
      ∧ (∀ policy, (ofText source text).map (Verdict.ofDocument policy)
          = .ok (.ofDocument policy value))
      ∧ (∀ policy format, (ofText source text).map
            (fun document => Report.render format source (.ofDocument policy document))
          = .ok (Report.render format source (.ofDocument policy value)))
      ∧ (∀ depth, ofText source (String.ofList
            (List.replicate depth '[' ++ (text.toList ++ List.replicate depth ']')))
          = .ok (value.enclosed depth))
      ∧ ∀ blank more, isBlank blank = true → (∃ c ∈ more, isBlank c = false) →
        ofText source (text ++ String.ofList (blank :: more))
          = .error (.malformedDocument source
              ((Fault.at .trailingCharacters (skipBlanks more)).message
                (text.toList ++ blank :: more))) := by
  constructor
  · rintro layout hlayout arranged harranged before after hbefore hafter
    have hblank : layout.Blank := by
      rcases hlayout with rfl | rfl
      · exact Layout.blank_compact
      · exact Layout.blank_indented
    exact .mk hbefore hafter (spells_write hblank harranged hnumbers 0)
  · intro text htext
    have hread := ofText_eq_ok source htext hsorted
    refine ⟨hread, ?_, ?_, ?_, ?_⟩
    · intro policy
      rw [hread]
      rfl
    · intro policy format
      rw [hread]
      rfl
    · intro depth
      apply ofText_eq_ok source _ (sorted_enclosed hsorted depth)
      rw [String.toList_ofList]
      exact isTextOf_enclosed htext depth
    · intro blank more hblank hmore
      exact ofText_append_eq_error source htext hsorted hblank hmore

/-- A value with an object, an array and a string that needs an escape. -/
def sampled : Json :=
  .object [("a", .array [.number (.integer (-1))]), ("b", .string "\"é\n")]

/-- The value with its members in another order. -/
def resampled : Json :=
  .object [("b", .string "\"é\n"), ("a", .array [.number (.integer (-1))])]

theorem sorted_sampled : sampled.Sorted :=
  ⟨List.pairwise_pair.mpr (by decide), ⟨trivial, trivial⟩, trivial, trivial⟩

theorem rearranged_sampled : Rearranged sampled resampled :=
  .object (List.Perm.swap _ _ _)
    (.cons (.string _) (.cons (.array (.cons (.number _) .nil)) .nil))

/-- The indented text with its members exchanged is read, and refused with a word behind it. -/
theorem ofText_resampled :
    (sampled.Sorted ∧ sampled.AllNumbers Number.IsInteger)
    ∧ ofText "s.json" (String.ofList ([' '] ++ ((resampled.write .indented 0).toList ++ ['\n'])))
        = .ok sampled
    ∧ ∃ reason, ofText "s.json"
        (String.ofList ([' '] ++ ((resampled.write .indented 0).toList ++ ['\n']))
          ++ String.ofList [' ', 'x'])
        = .error (.malformedDocument "s.json" reason) := by
  have hnumbers : sampled.AllNumbers Number.IsInteger :=
    ⟨⟨⟨by decide, by decide⟩, trivial⟩, trivial, trivial⟩
  obtain ⟨hwritten, hread⟩ := ofText_of_isTextOf "s.json" sorted_sampled hnumbers
  have htext := hwritten _ (.inr rfl) _ rearranged_sampled [' '] ['\n']
    (by simp [AllBlank, isBlank]) (by simp [AllBlank, isBlank])
  obtain ⟨hok, -, -, -, hmore⟩ := hread (String.ofList _) (by rwa [String.toList_ofList])
  exact ⟨⟨sorted_sampled, hnumbers⟩, hok, _, hmore ' ' ['x'] rfl ⟨'x', by simp, rfl⟩⟩

end StrategyDoc.Json
