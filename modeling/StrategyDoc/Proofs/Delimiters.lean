import Mathlib.Tactic.SplitIfs
import StrategyDoc.Text.Display

/-! # Where a part of a text ends

A text that is put together can be taken apart again if it shows where each part ends.  A part
made of characters of one class ends where the class is left (`append_inj_of_stops`), the
numerals of different numbers differ (`toDigits_injective`), and a text displayed between
quotes ends at the first quote that is not escaped (`Text.display_append_inj`). -/

namespace StrategyDoc

/-! ### Classes of characters -/

/-- The text does not go on with a character of the class. -/
def Stops (p : Char → Bool) (rest : List Char) : Prop := ∀ c ∈ rest.head?, p c = false

theorem stops_nil {p : Char → Bool} : Stops p [] := nofun

theorem stops_cons {p : Char → Bool} {c : Char} {rest : List Char} :
    Stops p (c :: rest) ↔ p c = false := by
  simp [Stops]

/-- A part in a class of characters ends where the class is left. -/
theorem append_inj_of_stops {p : Char → Bool} {part part' rest rest' : List Char}
    (hpart : ∀ c ∈ part, p c = true) (hpart' : ∀ c ∈ part', p c = true) (hrest : Stops p rest)
    (hrest' : Stops p rest') (h : part ++ rest = part' ++ rest') :
    part = part' ∧ rest = rest' := by
  induction part generalizing part' with
  | nil =>
      cases part' with
      | nil => exact ⟨rfl, h⟩
      | cons d part' =>
          rw [List.nil_append, List.cons_append] at h
          rw [h, stops_cons, hpart' d List.mem_cons_self] at hrest
          cases hrest
  | cons c part ih =>
      obtain ⟨hc, hpart⟩ := List.forall_mem_cons.mp hpart
      cases part' with
      | nil =>
          rw [List.nil_append, List.cons_append] at h
          rw [← h, stops_cons, hc] at hrest'
          cases hrest'
      | cons d part' =>
          obtain ⟨rfl, hmore⟩ := List.cons.inj h
          obtain ⟨rfl, rfl⟩ := ih hpart (List.forall_mem_cons.mp hpart').2 hmore
          exact ⟨rfl, rfl⟩

/-! ### Numerals -/

section numerals

variable {b : Nat} (hb : 1 < b)

include hb

theorem exists_digit_of_mem_toDigits {n : Nat} {c : Char} (h : c ∈ Nat.toDigits b n) :
    ∃ d < b, c = Nat.digitChar d := by
  induction n using Nat.strongRecOn with
  | ind n ih =>
      by_cases hn : n < b
      · rw [Nat.toDigits_of_lt_base hn, List.mem_singleton] at h
        exact ⟨n, hn, h⟩
      · have hle := Nat.le_of_not_lt hn
        rw [Nat.toDigits_of_base_le hb hle, List.mem_append, List.mem_singleton] at h
        rcases h with h | h
        · exact ih (n / b) (Nat.div_lt_self (by omega) hb) h
        · exact ⟨n % b, Nat.mod_lt _ (by omega), h⟩

theorem toDigits_injective (hbase : b ≤ 16) {m n : Nat}
    (h : Nat.toDigits b m = Nat.toDigits b n) : m = n := by
  have hdigit : ∀ c < b, ∀ d < b, Nat.digitChar c = Nat.digitChar d → c = d := by
    have hall : ∀ c < 16, ∀ d < 16, Nat.digitChar c = Nat.digitChar d → c = d := by decide
    exact fun c hc d hd => hall c (by omega) d (by omega)
  -- A numeral of more than one digit is no single digit.
  have hlonger : ∀ {small large : Nat}, small < b → b ≤ large →
      Nat.toDigits b small ≠ Nat.toDigits b large := by
    intro small large hsmall hlarge heq
    have hlength := congrArg List.length heq
    rw [Nat.toDigits_of_lt_base hsmall, Nat.toDigits_of_base_le hb hlarge, List.length_append,
      List.length_singleton, List.length_singleton] at hlength
    have hpos : 0 < (Nat.toDigits b (large / b)).length :=
      List.length_pos_iff.mpr Nat.toDigits_ne_nil
    omega
  induction m using Nat.strongRecOn generalizing n with
  | ind m ih =>
      rcases Nat.lt_or_ge m b with hm | hm <;> rcases Nat.lt_or_ge n b with hn | hn
      · rw [Nat.toDigits_of_lt_base hm, Nat.toDigits_of_lt_base hn, List.singleton_inj] at h
        exact hdigit m hm n hn h
      · exact absurd h (hlonger hm hn)
      · exact absurd h.symm (hlonger hn hm)
      · rw [Nat.toDigits_of_base_le hb hm, Nat.toDigits_of_base_le hb hn,
          List.append_singleton_inj] at h
        have hquotient := ih (m / b) (Nat.div_lt_self (by omega) hb) h.1
        have hremainder :=
          hdigit _ (Nat.mod_lt m (by omega)) _ (Nat.mod_lt n (by omega)) h.2
        rw [← Nat.div_add_mod m b, ← Nat.div_add_mod n b, hquotient, hremainder]

end numerals

/-! ### Displayed texts -/

namespace Text

/-- The characters with a short escape, and its letter. -/
def shortEscapes : List (Char × Char) :=
  [('\x00', '0'), ('\t', 't'), ('\r', 'r'), ('\n', 'n'), ('"', '"'), ('\\', '\\')]

/-- The ways to display a character. -/
inductive Displayed : Char → List Char → Prop
  | short {c letter : Char} (h : (c, letter) ∈ shortEscapes) : Displayed c ['\\', letter]
  | code (c : Char) :
      Displayed c ('\\' :: 'u' :: '\x7b' :: (Nat.toDigits 16 c.toNat ++ ['\x7d']))
  | plain {c : Char} (hquote : c ≠ '"') (hescape : c ≠ '\\') : Displayed c [c]

theorem displayed_displayChar (c : Char) : Displayed c (displayChar c) := by
  unfold displayChar
  split_ifs with hnul htab hreturn hnewline hquote hescape hhidden
  · subst hnul
    exact .short (by decide)
  · subst htab
    exact .short (by decide)
  · subst hreturn
    exact .short (by decide)
  · subst hnewline
    exact .short (by decide)
  · subst hquote
    exact .short (by decide)
  · subst hescape
    exact .short (by decide)
  · exact .code c
  · exact .plain hquote hescape

/-- A displayed character shows where it ends. -/
theorem Displayed.append_inj {c d : Char} {shown shown' rest rest' : List Char}
    (hc : Displayed c shown) (hd : Displayed d shown') (h : shown ++ rest = shown' ++ rest') :
    c = d ∧ rest = rest' := by
  have hletters : ∀ e ∈ shortEscapes, e.2 ≠ 'u' ∧ ∀ f ∈ shortEscapes, e.2 = f.2 → e.1 = f.1 := by
    decide
  have hdigits : ∀ n, ∀ digit ∈ Nat.toDigits 16 n, (digit != '\x7d') = true := by
    intro n digit hdigit
    obtain ⟨value, hvalue, rfl⟩ := exists_digit_of_mem_toDigits (by decide) hdigit
    have hall : ∀ value < 16, (Nat.digitChar value != '\x7d') = true := by decide
    exact hall value hvalue
  cases hc with
  | short hshort =>
      cases hd with
      | short hshort' =>
          obtain ⟨heq, hrest⟩ := List.cons.inj (List.cons.inj h).2
          exact ⟨(hletters _ hshort).2 _ hshort' heq, hrest⟩
      | code => exact absurd (List.cons.inj (List.cons.inj h).2).1 (hletters _ hshort).1
      | plain _ hescape => exact absurd (List.cons.inj h).1.symm hescape
  | code =>
      cases hd with
      | short hshort => exact absurd (List.cons.inj (List.cons.inj h).2).1.symm (hletters _ hshort).1
      | code =>
          simp only [List.cons_append, List.append_assoc, List.cons.injEq, true_and] at h
          obtain ⟨hcode, hrest⟩ := append_inj_of_stops (hdigits _) (hdigits _)
            (stops_cons.mpr rfl) (stops_cons.mpr rfl) h
          exact ⟨Char.toNat_inj.mp (toDigits_injective (by decide) (by decide) hcode),
            (List.cons.inj hrest).2⟩
      | plain _ hescape => exact absurd (List.cons.inj h).1.symm hescape
  | plain _ hescape =>
      cases hd with
      | short => exact absurd (List.cons.inj h).1 hescape
      | code => exact absurd (List.cons.inj h).1 hescape
      | plain => exact List.cons.inj h

theorem Displayed.append_ne_quote {c : Char} {shown rest rest' : List Char}
    (hc : Displayed c shown) : shown ++ rest ≠ '"' :: rest' := by
  intro h
  cases hc with
  | short => exact absurd (List.cons.inj h).1 (by decide)
  | code => exact absurd (List.cons.inj h).1 (by decide)
  | plain hquote => exact hquote (List.cons.inj h).1

theorem flatMap_displayChar_append_inj {s t rest rest' : List Char}
    (h : s.flatMap displayChar ++ '"' :: rest = t.flatMap displayChar ++ '"' :: rest') :
    s = t ∧ rest = rest' := by
  induction s generalizing t with
  | nil =>
      cases t with
      | nil => exact ⟨rfl, (List.cons.inj h).2⟩
      | cons d t =>
          rw [List.flatMap_cons, List.append_assoc] at h
          exact absurd h.symm (displayed_displayChar d).append_ne_quote
  | cons c s ih =>
      rw [List.flatMap_cons, List.append_assoc] at h
      cases t with
      | nil => exact absurd h (displayed_displayChar c).append_ne_quote
      | cons d t =>
          rw [List.flatMap_cons, List.append_assoc] at h
          obtain ⟨rfl, hmore⟩ := (displayed_displayChar c).append_inj (displayed_displayChar d) h
          obtain ⟨rfl, rfl⟩ := ih hmore
          exact ⟨rfl, rfl⟩

theorem toList_display (s : String) :
    (display s).toList = '"' :: (s.toList.flatMap displayChar ++ ['"']) :=
  String.toList_ofList

/-- **A displayed text shows where it ends.** -/
theorem display_append_inj {s t : String} {rest rest' : List Char}
    (h : (display s).toList ++ rest = (display t).toList ++ rest') : s = t ∧ rest = rest' := by
  rw [toList_display, toList_display, List.cons_append, List.cons_append, List.append_assoc,
    List.append_assoc] at h
  obtain ⟨hchars, hrest⟩ := flatMap_displayChar_append_inj (List.cons.inj h).2
  exact ⟨String.toList_inj.mp hchars, hrest⟩

end Text

end StrategyDoc
