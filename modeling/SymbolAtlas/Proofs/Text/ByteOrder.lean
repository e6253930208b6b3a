import Mathlib.Data.String.Basic

/-!
# The order of texts is the order of their bytes

Texts are compared character by character. Their encodings in bytes compare the same way
(`bytes_lt_of_lt`): the first byte of a character tells how many bytes follow, more of them for
higher characters, and among characters of one length the bytes are the digits of the number of the
character, highest first.
-/

namespace SymbolAtlas.Text

/-- The bytes of a text. -/
def bytes (s : String) : List UInt8 := s.toUTF8.data.toList

theorem bytes_eq (s : String) : bytes s = s.toList.flatMap String.utf8EncodeChar := by
  have h : s.toByteArray = s.toList.utf8Encode := by
    rw [← String.toByteArray_ofList, String.ofList_toList]
  simp [bytes, String.toUTF8, h, List.utf8Encode]

/-- Lists of bytes compare by the first bytes that differ. -/
theorem cons_lt_cons_of_digit {x y : Nat} {xs ys : List UInt8} (hx : x < 256) (hy : y < 256)
    (h : x < y ∨ x = y ∧ xs < ys) : UInt8.ofNat x :: xs < UInt8.ofNat y :: ys := by
  rw [List.cons_lt_cons_iff]
  rcases h with h | ⟨rfl, h⟩
  · left
    rw [UInt8.lt_iff_toNat_lt, UInt8.toNat_ofNat_of_lt' hx, UInt8.toNat_ofNat_of_lt' hy]
    exact h
  · exact .inr ⟨rfl, h⟩

section

variable {v w : Nat} {rest rest' : List UInt8}

theorem oneDigit_lt (h : v < w) (hhead : v / 64 = w / 64) :
    UInt8.ofNat (v % 64 + 128) :: rest < UInt8.ofNat (w % 64 + 128) :: rest' :=
  cons_lt_cons_of_digit (by omega) (by omega) (.inl (by omega))

theorem twoDigits_lt (h : v < w) (hhead : v / 4096 = w / 4096) :
    UInt8.ofNat (v / 64 % 64 + 128) :: UInt8.ofNat (v % 64 + 128) :: rest <
      UInt8.ofNat (w / 64 % 64 + 128) :: UInt8.ofNat (w % 64 + 128) :: rest' := by
  refine cons_lt_cons_of_digit (by omega) (by omega) ?_
  by_cases hdigit : v / 64 = w / 64
  · exact .inr ⟨by rw [hdigit], oneDigit_lt h hdigit⟩
  · exact .inl (by omega)

theorem threeDigits_lt (h : v < w) (hhead : v / 262144 = w / 262144) :
    UInt8.ofNat (v / 4096 % 64 + 128) :: UInt8.ofNat (v / 64 % 64 + 128) ::
        UInt8.ofNat (v % 64 + 128) :: rest <
      UInt8.ofNat (w / 4096 % 64 + 128) :: UInt8.ofNat (w / 64 % 64 + 128) ::
        UInt8.ofNat (w % 64 + 128) :: rest' := by
  refine cons_lt_cons_of_digit (by omega) (by omega) ?_
  by_cases hdigit : v / 4096 = w / 4096
  · exact .inr ⟨by rw [hdigit], twoDigits_lt h hdigit⟩
  · exact .inl (by omega)

end

/-- The bytes of a lower character come first, whatever follows. -/
theorem utf8EncodeChar_append_lt {c d : Char} (h : c < d) (rest rest' : List UInt8) :
    String.utf8EncodeChar c ++ rest < String.utf8EncodeChar d ++ rest' := by
  have hcd : c.val.toNat < d.val.toNat := h
  have hd : d.val.toNat < 1114112 := by
    have := d.valid
    simp only [UInt32.isValidChar, Nat.isValidChar] at this
    omega
  simp only [String.utf8EncodeChar]
  generalize c.val.toNat = v at hcd ⊢
  generalize d.val.toNat = w at hcd hd ⊢
  -- a higher character has no fewer bytes; each goal left is one pair of lengths
  split_ifs <;> try omega
  all_goals
    simp only [List.cons_append, List.nil_append]
    refine cons_lt_cons_of_digit (by omega) (by omega) ?_
  · exact .inl hcd
  · exact .inl (by omega)
  · exact .inl (by omega)
  · exact .inl (by omega)
  · by_cases hhead : v / 64 = w / 64
    · exact .inr ⟨by rw [hhead], oneDigit_lt hcd hhead⟩
    · exact .inl (by omega)
  · exact .inl (by omega)
  · exact .inl (by omega)
  · by_cases hhead : v / 4096 = w / 4096
    · exact .inr ⟨by rw [hhead], twoDigits_lt hcd hhead⟩
    · exact .inl (by omega)
  · exact .inl (by omega)
  · by_cases hhead : v / 262144 = w / 262144
    · exact .inr ⟨by rw [hhead], threeDigits_lt hcd hhead⟩
    · exact .inl (by omega)

theorem flatMap_utf8EncodeChar_lt {cs ds : List Char} (h : List.Lex (· < ·) cs ds) :
    cs.flatMap String.utf8EncodeChar < ds.flatMap String.utf8EncodeChar := by
  induction h with
  | @nil d ds =>
    obtain ⟨byte, bytes, hbytes⟩ := List.exists_cons_of_ne_nil (String.utf8EncodeChar_ne_nil (c := d))
    rw [List.flatMap_nil, List.flatMap_cons, hbytes]
    exact List.nil_lt_cons _ _
  | rel hcd => exact utf8EncodeChar_append_lt hcd _ _
  | cons _ ih =>
    simp only [List.flatMap_cons]
    exact List.append_left_lt ih

theorem bytes_lt_of_lt {s t : String} (h : s < t) : bytes s < bytes t := by
  rw [bytes_eq, bytes_eq]
  exact flatMap_utf8EncodeChar_lt ((List.lt_iff_lex_lt _ _).mp (String.lt_iff.mp h))

end SymbolAtlas.Text
