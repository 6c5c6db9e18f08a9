import Respell.Proofs.Text.Cut
import Respell.Text.Utf8

/-! # Marks without an escape -/

namespace Respell.Text

/-- How many marks of a text no escape stands right before; `previous` is what the text follows. -/
def unescaped {α : Type} [DecidableEq α] (escape mark : α) (previous : Option α)
    (text : List α) : Nat :=
  ((previous :: text.map some).zip text).countP fun pair =>
    pair.1 ≠ some escape && pair.2 = mark

section Count

variable {α : Type} [DecidableEq α] (escape mark : α)

theorem unescaped_cons (previous : Option α) (c : α) (text : List α) :
    unescaped escape mark previous (c :: text) =
      unescaped escape mark (some c) text +
        if previous ≠ some escape ∧ c = mark then 1 else 0 := by
  simp [unescaped, List.countP_cons]

theorem unescaped_append (previous : Option α) (x y : List α) :
    unescaped escape mark previous (x ++ y) =
      unescaped escape mark previous x + unescaped escape mark (x.getLast?.or previous) y := by
  induction x generalizing previous with
  | nil => simp [unescaped]
  | cons c x ih =>
      have hlast : (c :: x).getLast?.or previous = x.getLast?.or (some c) := by
        rw [List.getLast?_cons]
        cases x.getLast? <;> rfl
      rw [List.cons_append, unescaped_cons, unescaped_cons, ih, hlast]
      omega

theorem unescaped_eq_zero (previous : Option α) {x : List α} (hx : mark ∉ x) :
    unescaped escape mark previous x = 0 := by
  induction x generalizing previous with
  | nil => rfl
  | cons c x ih =>
      obtain ⟨hc, hrest⟩ : mark ≠ c ∧ mark ∉ x := by simpa using hx
      rw [unescaped_cons, ih _ hrest, if_neg (fun h => hc h.2.symm)]

end Count

theorem encode_append (x y : List Char) : encode (x ++ y) = encode x ++ encode y :=
  List.flatMap_append

theorem encode_injective : Function.Injective encode := by
  intro x y h
  have hbytes : x.utf8Encode = y.utf8Encode := congrArg List.toByteArray h
  rw [← String.toByteArray_ofList, ← String.toByteArray_ofList, String.toByteArray_inj] at hbytes
  exact String.ofList_injective hbytes

theorem length_encode (x : List Char) : (encode x).length = width x := by
  induction x with
  | nil => rfl
  | cons c x ih =>
      rw [width_cons, ← ih, ← String.length_utf8EncodeChar, ← List.length_append]
      rfl

theorem le_of_mem_utf8EncodeChar {c : Char} (hc : 128 ≤ c.toNat) {b : UInt8}
    (hb : b ∈ String.utf8EncodeChar c) : 128 ≤ b.toNat := by
  have hval : ¬ c.val.toNat ≤ 127 := Nat.not_le.mpr hc
  simp only [String.utf8EncodeChar, if_neg hval] at hb
  split at hb
  · simp only [List.mem_cons, List.not_mem_nil, or_false] at hb
    rcases hb with rfl | rfl <;> simp only [UInt8.toNat_ofNat'] <;> omega
  · split at hb
    · simp only [List.mem_cons, List.not_mem_nil, or_false] at hb
      rcases hb with rfl | rfl | rfl <;> simp only [UInt8.toNat_ofNat'] <;> omega
    · simp only [List.mem_cons, List.not_mem_nil, or_false] at hb
      rcases hb with rfl | rfl | rfl | rfl <;> simp only [UInt8.toNat_ofNat'] <;> omega

theorem utf8Size_eq_one {c : Char} (hc : c.toNat < 128) : c.utf8Size = 1 := by
  rw [Char.utf8Size_eq_one_iff, UInt32.le_iff_toNat_le]
  exact Nat.le_of_lt_succ hc

theorem toNat_toUInt8 {c : Char} (hc : c.toNat < 128) : c.toUInt8.toNat = c.toNat := by
  have hmod : c.toUInt8.toNat = c.toNat % 256 := UInt32.toNat_toUInt8 c.val
  omega

theorem toUInt8_mem_utf8EncodeChar_iff {c d : Char} (hd : d.toNat < 128) :
    d.toUInt8 ∈ String.utf8EncodeChar c ↔ c = d := by
  constructor
  · intro hmem
    have hc : c.toNat < 128 := by
      apply Nat.not_le.mp
      intro hc
      have hle := le_of_mem_utf8EncodeChar hc hmem
      rw [toNat_toUInt8 hd] at hle
      omega
    rw [String.utf8EncodeChar_eq_singleton (utf8Size_eq_one hc), List.mem_singleton] at hmem
    have hval : d.toUInt8 = c.toUInt8 := hmem
    apply Char.toNat_inj.mp
    rw [← toNat_toUInt8 hc, ← toNat_toUInt8 hd, hval]
  · rintro rfl
    rw [String.utf8EncodeChar_eq_singleton (utf8Size_eq_one hd)]
    exact List.mem_singleton.mpr rfl

theorem getLast?_utf8EncodeChar_iff {c d : Char} (hd : d.toNat < 128) (last? : Option UInt8) :
    (String.utf8EncodeChar c).getLast?.or last? = some d.toUInt8 ↔ c = d := by
  have hne : String.utf8EncodeChar c ≠ [] := by
    rw [← List.length_pos_iff, String.length_utf8EncodeChar]
    exact c.utf8Size_pos
  have hlast := List.getLast_mem hne
  rw [List.getLast?_eq_some_getLast hne, Option.some_or, Option.some.injEq]
  constructor
  · intro heq
    rw [heq] at hlast
    exact (toUInt8_mem_utf8EncodeChar_iff hd).mp hlast
  · rintro rfl
    simp [String.utf8EncodeChar_eq_singleton (utf8Size_eq_one hd)]

section Bytes

variable {escape mark : Char} (hescape : escape.toNat < 128) (hmark : mark.toNat < 128)

include hescape hmark

theorem unescaped_encode {last? : Option UInt8} {previous : Option Char}
    (h : last? = some escape.toUInt8 ↔ previous = some escape) (x : List Char) :
    unescaped escape.toUInt8 mark.toUInt8 last? (encode x) =
      unescaped escape mark previous x := by
  induction x generalizing last? previous with
  | nil => rfl
  | cons c x ih =>
      have hnext : (String.utf8EncodeChar c).getLast?.or last? = some escape.toUInt8 ↔
          some c = some escape := by
        rw [getLast?_utf8EncodeChar_iff hescape, Option.some.injEq]
      have hfirst : unescaped escape.toUInt8 mark.toUInt8 last? (String.utf8EncodeChar c) =
          if previous ≠ some escape ∧ c = mark then 1 else 0 := by
        by_cases hc : c = mark
        · subst hc
          have hsingle : String.utf8EncodeChar c = [c.toUInt8] :=
            String.utf8EncodeChar_eq_singleton (utf8Size_eq_one hmark)
          rw [hsingle, unescaped_cons]
          simp [unescaped, h]
        · rw [unescaped_eq_zero _ _ _ fun hmem =>
            hc ((toUInt8_mem_utf8EncodeChar_iff hmark).mp hmem), if_neg fun h => hc h.2]
      have hbytes : encode (c :: x) = String.utf8EncodeChar c ++ encode x := rfl
      rw [hbytes, unescaped_append, hfirst, ih hnext, unescaped_cons, Nat.add_comm]

/-- Before a byte of a character there are as many marks as before the character. -/
theorem unescaped_take_encode {x y : List Char} {c : Char} {p : Nat} (hstart : width x ≤ p)
    (hstop : p < width x + c.utf8Size) :
    unescaped escape.toUInt8 mark.toUInt8 none ((encode (x ++ c :: y)).take p) =
      unescaped escape mark none x := by
  have hbytes : encode (x ++ c :: y) = encode x ++ (String.utf8EncodeChar c ++ encode y) :=
    encode_append x (c :: y)
  have htake : (encode (x ++ c :: y)).take p =
      encode x ++ (String.utf8EncodeChar c).take (p - width x) := by
    rw [hbytes, List.take_append, List.take_append, length_encode, String.length_utf8EncodeChar,
      List.take_of_length_le (by rw [length_encode]; exact hstart),
      show p - width x - c.utf8Size = 0 by omega, List.take_zero, List.append_nil]
  have hinside : mark.toUInt8 ∉ (String.utf8EncodeChar c).take (p - width x) := by
    intro hmem
    obtain rfl := (toUInt8_mem_utf8EncodeChar_iff hmark).mp (List.mem_of_mem_take hmem)
    have hsize := utf8Size_eq_one hmark
    rw [show p - width x = 0 by omega] at hmem
    simp at hmem
  rw [htake, unescaped_append, unescaped_eq_zero _ _ _ hinside, Nat.add_zero,
    @unescaped_encode _ _ hescape hmark none none (by simp)]

end Bytes

theorem getElem?_encode_char {x y : List Char} {c : Char} {p : Nat} (hstart : width x ≤ p)
    (hstop : p < width x + c.utf8Size) :
    (encode (x ++ c :: y))[p]? = (String.utf8EncodeChar c)[p - width x]? := by
  have hbytes : encode (x ++ c :: y) = encode x ++ (String.utf8EncodeChar c ++ encode y) :=
    encode_append x (c :: y)
  have hinside : p - width x < (String.utf8EncodeChar c).length := by
    rw [String.length_utf8EncodeChar]
    omega
  rw [hbytes, List.getElem?_append_right (by rw [length_encode]; exact hstart), length_encode,
    List.getElem?_append_left hinside]

theorem eq_of_getElem?_encode {x y : List Char} {c d : Char} {p : Nat} (hd : d.toNat < 128)
    (hstart : width x ≤ p) (hstop : p < width x + c.utf8Size)
    (h : (encode (x ++ c :: y))[p]? = some d.toUInt8) : c = d := by
  rw [getElem?_encode_char hstart hstop] at h
  exact (toUInt8_mem_utf8EncodeChar_iff hd).mp (List.mem_of_getElem? h)

theorem exists_char_at {text : List Char} {p : Nat} (h : p < width text) :
    ∃ x c y, text = x ++ c :: y ∧ width x ≤ p ∧ p < width x + c.utf8Size := by
  induction text generalizing p with
  | nil => exact absurd h (Nat.not_lt_zero p)
  | cons c text ih =>
      rw [width_cons] at h
      by_cases hc : p < c.utf8Size
      · exact ⟨[], c, text, rfl, Nat.zero_le p, by simpa using hc⟩
      · obtain ⟨x, d, y, rfl, hstart, hstop⟩ := @ih (p - c.utf8Size) (by omega)
        refine ⟨c :: x, d, y, rfl, ?_, ?_⟩
        · rw [width_cons]
          omega
        · rw [width_cons]
          omega

end Respell.Text
