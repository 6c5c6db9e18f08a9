import Respell.Text.Utf8

namespace Respell.Text

section Announced

variable {a : UInt8} (b c d : UInt8) (bytes : List UInt8)

theorem announced_one (h : a.toNat < 0x80) : announced (a :: bytes) = a.toNat := by
  have hone : a < 0x80 := UInt8.lt_iff_toNat_lt.mpr h
  simp only [announced, if_pos hone]

theorem announced_two (h : 0x80 ≤ a.toNat) (h' : a.toNat < 0xE0) :
    announced (a :: b :: bytes) = a.toNat % 32 * 64 + b.toNat % 64 := by
  have hone : ¬a < 0x80 := UInt8.not_lt.mpr (UInt8.le_iff_toNat_le.mpr h)
  have htwo : a < 0xE0 := UInt8.lt_iff_toNat_lt.mpr h'
  simp only [announced, if_neg hone, if_pos htwo, payload]

theorem announced_three (h : 0xE0 ≤ a.toNat) (h' : a.toNat < 0xF0) :
    announced (a :: b :: c :: bytes) =
      (a.toNat % 16 * 64 + b.toNat % 64) * 64 + c.toNat % 64 := by
  have htwo : 0xE0 ≤ a := UInt8.le_iff_toNat_le.mpr h
  have hone : ¬a < 0x80 := UInt8.not_lt.mpr (UInt8.le_trans (by decide) htwo)
  have hthree : a < 0xF0 := UInt8.lt_iff_toNat_lt.mpr h'
  simp only [announced, if_neg hone, if_neg (UInt8.not_lt.mpr htwo), if_pos hthree, payload]

theorem announced_four (h : 0xF0 ≤ a.toNat) :
    announced (a :: b :: c :: d :: bytes) =
      ((a.toNat % 8 * 64 + b.toNat % 64) * 64 + c.toNat % 64) * 64 + d.toNat % 64 := by
  have hthree : 0xF0 ≤ a := UInt8.le_iff_toNat_le.mpr h
  have hone : ¬a < 0x80 := UInt8.not_lt.mpr (UInt8.le_trans (by decide) hthree)
  have htwo : ¬a < 0xE0 := UInt8.not_lt.mpr (UInt8.le_trans (by decide) hthree)
  simp only [announced, if_neg hone, if_neg htwo, if_neg (UInt8.not_lt.mpr hthree), payload]

end Announced

theorem toNat_val_lt (c : Char) : c.val.toNat < 0x110000 := by
  have hvalid := c.valid
  simp only [UInt32.isValidChar, Nat.isValidChar] at hvalid
  omega

theorem announced_utf8EncodeChar (c : Char) (bytes : List UInt8) :
    announced (String.utf8EncodeChar c ++ bytes) = c.toNat := by
  have hbound := toNat_val_lt c
  show announced (String.utf8EncodeChar c ++ bytes) = c.val.toNat
  simp only [String.utf8EncodeChar]
  generalize c.val.toNat = v at hbound ⊢
  split
  · rw [List.cons_append, announced_one] <;> simp only [UInt8.toNat_ofNat'] <;> omega
  split
  · simp only [List.cons_append]
    rw [announced_two] <;> simp only [UInt8.toNat_ofNat'] <;> omega
  split
  · simp only [List.cons_append]
    rw [announced_three] <;> simp only [UInt8.toNat_ofNat'] <;> omega
  · simp only [List.cons_append]
    rw [announced_four] <;> simp only [UInt8.toNat_ofNat'] <;> omega

theorem firstChar?_utf8EncodeChar (c : Char) (bytes : List UInt8) :
    firstChar? (String.utf8EncodeChar c ++ bytes) = some c := by
  have hprefix : (String.utf8EncodeChar c).isPrefixOf (String.utf8EncodeChar c ++ bytes) = true :=
    List.isPrefixOf_iff_prefix.mpr (List.prefix_append _ bytes)
  simp only [firstChar?, announced_utf8EncodeChar, Char.ofNat_toNat, hprefix, if_true]

/-- Bytes that belong to a character already read are passed over. -/
theorem decodeFrom_append (read bytes : List UInt8) :
    decodeFrom read.length (read ++ bytes) = decodeFrom 0 bytes := by
  induction read with
  | nil => rfl
  | cons b read ih => exact ih

theorem decode_encode (cs : List Char) : decode (encode cs) = cs.map some := by
  induction cs with
  | nil => rfl
  | cons c cs ih =>
      have hsplit : encode (c :: cs) = String.utf8EncodeChar c ++ encode cs := rfl
      have hfirst := firstChar?_utf8EncodeChar c (encode cs)
      have hlength := String.length_utf8EncodeChar c
      rw [decode, hsplit]
      cases hbytes : String.utf8EncodeChar c with
      | nil =>
          have hpos := c.utf8Size_pos
          rw [hbytes, List.length_nil] at hlength
          omega
      | cons b read =>
          rw [hbytes, List.cons_append] at hfirst
          rw [hbytes, List.length_cons] at hlength
          have hskip : c.utf8Size - 1 = read.length := by omega
          rw [List.cons_append, decodeFrom, hfirst]
          simp only [hskip, decodeFrom_append]
          rw [List.map_cons, ← ih, decode]

theorem gapless?_map_some (cs : List Char) : gapless? (cs.map some) = some cs := by
  induction cs with
  | nil => rfl
  | cons c cs ih => rw [List.map_cons, gapless?, ih, Option.map_some]

end Respell.Text
