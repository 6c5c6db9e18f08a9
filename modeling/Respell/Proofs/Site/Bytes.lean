import Respell.Proofs.Site.Seam
import Respell.Proofs.Text.Marks

namespace Respell

open Text

def isDigitByte (b : UInt8) : Bool := 0x30 ≤ b && b ≤ 0x39

/-- The bytes of names: ASCII letters, digits and the underscore. -/
def isWordByte (b : UInt8) : Bool :=
  isDigitByte b || (0x41 ≤ b && b ≤ 0x5A) || (0x61 ≤ b && b ≤ 0x7A) || b == 0x5F

theorem isDigitByte_toUInt8 {c : Char} (hc : c.toNat < 128) :
    isDigitByte c.toUInt8 = c.isDigit := by
  have hall : ∀ n < 128, isDigitByte (Char.ofNat n).toUInt8 = (Char.ofNat n).isDigit := by decide
  rw [← Char.ofNat_toNat c]
  exact hall c.toNat hc

theorem isWordByte_toUInt8 {c : Char} (hc : c.toNat < 128) :
    isWordByte c.toUInt8 = isWordChar c := by
  have hall : ∀ n < 128, isWordByte (Char.ofNat n).toUInt8 = isWordChar (Char.ofNat n) := by
    decide
  rw [← Char.ofNat_toNat c]
  exact hall c.toNat hc

theorem isWordByte_eq_false {b : UInt8} (hb : 128 ≤ b.toNat) : isWordByte b = false := by
  simp only [isWordByte, isDigitByte, Bool.or_eq_false_iff, Bool.and_eq_false_iff,
    decide_eq_false_iff_not, UInt8.le_iff_toNat_le, beq_eq_false_iff_ne, ne_eq, ← UInt8.toNat_inj]
  simp only [UInt8.reduceToNat]
  omega

theorem toNat_lt_of_isWordChar {c : Char} (hc : isWordChar c = true) : c.toNat < 128 := by
  have hbounds := isWordChar_bounds hc
  omega

section Character

variable {x y : List Char} {c : Char} {p : Nat} (hstart : width x ≤ p)
  (hstop : p < width x + c.utf8Size)

include hstart hstop

theorem any_isWordByte_encode :
    (encode (x ++ c :: y))[p]?.any isWordByte = isWordChar c := by
  rw [getElem?_encode_char hstart hstop]
  by_cases hc : c.toNat < 128
  · have hsize := utf8Size_eq_one hc
    have hplace : p - width x = 0 := by omega
    rw [hplace, String.utf8EncodeChar_eq_singleton hsize]
    exact isWordByte_toUInt8 hc
  · have hnot : isWordChar c = false := by
      apply Bool.eq_false_iff.mpr
      intro hword
      exact hc (toNat_lt_of_isWordChar hword)
    rw [hnot, Option.any_eq_false]
    intro b hb
    have hlarge := le_of_mem_utf8EncodeChar (Nat.le_of_not_lt hc) (List.mem_of_getElem? hb)
    simp [isWordByte_eq_false hlarge]

end Character

theorem any_isDigitByte_after (x y : List Char) {c : Char} (hc : isWordChar c = true) :
    (encode (x ++ c :: y))[width x]?.any isDigitByte = c.isDigit := by
  have hascii := toNat_lt_of_isWordChar hc
  have hstop : width x < width x + c.utf8Size := Nat.lt_add_of_pos_right c.utf8Size_pos
  rw [getElem?_encode_char (Nat.le_refl _) hstop, Nat.sub_self,
    String.utf8EncodeChar_eq_singleton (utf8Size_eq_one hascii)]
  exact isDigitByte_toUInt8 hascii

theorem any_isWordByte_inside {x w z : List Char} (hw : ∀ c ∈ w, isWordChar c = true) {p : Nat}
    (hstart : width x ≤ p) (hstop : p < width x + width w) :
    (encode (x ++ w ++ z))[p]?.any isWordByte = true := by
  obtain ⟨u, c, v, rfl, hu, hc⟩ := @exists_char_at w (p - width x) (by omega)
  have hplace : (encode ((x ++ u) ++ c :: (v ++ z)))[p]?.any isWordByte = isWordChar c := by
    apply any_isWordByte_encode
    · rw [width_append]
      omega
    · rw [width_append]
      omega
  rw [← hw c (by simp), ← hplace]
  simp only [List.append_assoc, List.cons_append]

theorem any_isWordByte_after (x y : List Char) :
    (encode (x ++ y))[width x]?.any isWordByte = y.head?.any isWordChar := by
  cases y with
  | nil => simp [← length_encode]
  | cons c y =>
      have hc := c.utf8Size_pos
      apply any_isWordByte_encode (Nat.le_refl _)
      omega

theorem any_isWordByte_before {x : List Char} (hx : x ≠ []) (y : List Char) :
    (encode (x ++ y))[width x - 1]?.any isWordByte = x.getLast?.any isWordChar := by
  obtain ⟨u, c, rfl⟩ : ∃ u c, x = u ++ [c] :=
    ⟨x.dropLast, x.getLast hx, (List.dropLast_concat_getLast hx).symm⟩
  have hc := c.utf8Size_pos
  rw [List.append_assoc, List.singleton_append, width_append, width_cons, width_nil,
    List.getLast?_concat]
  apply any_isWordByte_encode
  · omega
  · omega

end Respell
