import Mathlib.Data.String.Basic

/-! # Names in the order of their bytes

Strings are compared character by character.  Their UTF-8 encodings compare in the same way
byte by byte (`lt_iff_utf8Bytes_lt`): the first byte of a character tells how many follow, more
of them for greater characters, and each byte holds less significant bits than the one before. -/

namespace StrategyDoc

/-- The bytes of a string in UTF-8. -/
def utf8Bytes (s : String) : List UInt8 := s.toUTF8.data.toList

theorem utf8Bytes_eq_flatMap (s : String) :
    utf8Bytes s = s.toList.flatMap String.utf8EncodeChar := by
  unfold utf8Bytes
  rw [show s.toUTF8 = s.toList.utf8Encode from String.utf8Encode_toList.symm, List.utf8Encode,
    List.toList_data_toByteArray]

theorem toNat_ofNat_add {k r b : ℕ} (h : r + b ≤ 256) (hr : 0 < r) :
    (UInt8.ofNat (k % r + b)).toNat = k % r + b := by
  have hlt := Nat.mod_lt k hr
  rw [UInt8.toNat_ofNat', Nat.mod_eq_of_lt]
  omega

/-- The bytes of two different characters decide, whatever follows. -/
theorem utf8EncodeChar_append_lt {c d : Char} (h : c < d) (us vs : List UInt8) :
    String.utf8EncodeChar c ++ us < String.utf8EncodeChar d ++ vs := by
  have hlt : c.val.toNat < d.val.toNat := h
  have hd : d.val.toNat ≤ 0x10ffff := by
    rcases d.valid with h | h <;> omega
  have hbyte : ∀ k ≤ 127, (UInt8.ofNat k).toNat = k := by
    intro k hk
    rw [UInt8.toNat_ofNat', Nat.mod_eq_of_lt]
    omega
  have hdigits : ∀ k l, k < l ↔ k / 64 < l / 64 ∨ k / 64 = l / 64 ∧ k % 64 < l % 64 := by
    omega
  unfold String.utf8EncodeChar
  generalize c.val.toNat = m, d.val.toNat = n at hlt hd
  dsimp only
  split_ifs
  all_goals simp (disch := omega) only [List.cons_append, List.nil_append,
    List.cons_lt_cons_iff, UInt8.lt_iff_toNat_lt, ← UInt8.toNat_inj, toNat_ofNat_add, hbyte]
  all_goals try omega
  -- Two characters of four bytes are compared digit by digit in base 64.
  rw [show m / 4096 = m / 64 / 64 by omega, show m / 262144 = m / 64 / 64 / 64 by omega,
    show n / 4096 = n / 64 / 64 by omega, show n / 262144 = n / 64 / 64 / 64 by omega]
  rw [hdigits, hdigits (m / 64), hdigits (m / 64 / 64)] at hlt
  omega

theorem flatMap_utf8EncodeChar_lt : ∀ {s t : List Char}, s < t →
    s.flatMap String.utf8EncodeChar < t.flatMap String.utf8EncodeChar
  | _, [], h => absurd h (List.not_lt_nil _)
  | [], d :: t, _ => by
      obtain ⟨byte, bytes, hbytes⟩ : ∃ byte bytes, String.utf8EncodeChar d = byte :: bytes :=
        List.exists_cons_of_ne_nil String.utf8EncodeChar_ne_nil
      rw [List.flatMap_nil, List.flatMap_cons, hbytes]
      exact List.nil_lt_cons _ _
  | c :: s, d :: t, h => by
      rw [List.flatMap_cons, List.flatMap_cons]
      rcases List.cons_lt_cons_iff.mp h with hlt | ⟨rfl, hrest⟩
      · exact utf8EncodeChar_append_lt hlt _ _
      · exact List.append_left_lt (flatMap_utf8EncodeChar_lt hrest)

/-- **Strings are in the order of their bytes.** -/
theorem lt_iff_utf8Bytes_lt {s t : String} : s < t ↔ utf8Bytes s < utf8Bytes t := by
  have hbytes : ∀ {s t : String}, s < t → utf8Bytes s < utf8Bytes t := by
    intro s t h
    rw [utf8Bytes_eq_flatMap, utf8Bytes_eq_flatMap]
    exact flatMap_utf8EncodeChar_lt (String.lt_iff_toList_lt.mp h)
  refine ⟨hbytes, fun h => ?_⟩
  rcases lt_trichotomy s t with hlt | rfl | hgt
  · exact hlt
  · exact absurd h (List.lt_irrefl _)
  · exact absurd h (List.lt_asymm (hbytes hgt))

end StrategyDoc
