import Respell.Proofs.Text.Decoding
import Respell.Proofs.Text.Marks

namespace Respell.Text

def isLeadByte (b : UInt8) : Bool := b < 0x80 || 0xC0 ≤ b

/-- A character begins at an offset, or the text ends there. -/
def isBoundary (bytes : List UInt8) (offset : Nat) : Bool :=
  offset == 0 || offset == bytes.length || bytes[offset]?.any isLeadByte

def upTo? (text : List Char) (offset : Nat) : Option (List Char) :=
  (splitAt? text offset).map (·.1)

def from? (text : List Char) (offset : Nat) : Option (List Char) :=
  (splitAt? text offset).map (·.2)

def slice? (text : List Char) (span : Span) : Option (List Char) :=
  (parts? text span).map (·.2.1)

def minus? (m n : Nat) : Option Nat := if n ≤ m then some (m - n) else none

@[simp]
theorem upTo?_append (x y : List Char) : upTo? (x ++ y) (width x) = some x := by
  simp [upTo?, splitAt?_append]

@[simp]
theorem from?_append (x y : List Char) : from? (x ++ y) (width x) = some y := by
  simp [from?, splitAt?_append]

theorem slice?_append (x y z : List Char) :
    slice? (x ++ y ++ z) ⟨width x, width x + width y⟩ = some y := by
  rw [slice?, parts?_append]
  rfl

theorem minus?_add (m n : Nat) : minus? (m + n) n = some m := by
  simp [minus?]

theorem isLeadByte_utf8EncodeChar (c : Char) :
    ∃ b rest, String.utf8EncodeChar c = b :: rest ∧ isLeadByte b = true ∧
      ∀ d ∈ rest, isLeadByte d = false := by
  have hbound := toNat_val_lt c
  simp only [String.utf8EncodeChar, isLeadByte, Bool.or_eq_true, Bool.or_eq_false_iff,
    decide_eq_true_eq, decide_eq_false_iff_not, UInt8.lt_iff_toNat_lt, UInt8.le_iff_toNat_le]
  generalize c.val.toNat = v at hbound
  split
  · refine ⟨_, _, rfl, ?_, by simp⟩
    simp only [UInt8.toNat_ofNat', UInt8.reduceToNat]
    omega
  split
  · refine ⟨_, _, rfl, ?_, ?_⟩ <;>
      simp only [List.mem_cons, List.not_mem_nil, or_false, forall_eq, UInt8.toNat_ofNat',
        UInt8.reduceToNat] <;> omega
  split
  · refine ⟨_, _, rfl, ?_, ?_⟩ <;>
      simp only [List.mem_cons, List.not_mem_nil, or_false, forall_eq_or_imp, forall_eq,
        UInt8.toNat_ofNat', UInt8.reduceToNat] <;> omega
  · refine ⟨_, _, rfl, ?_, ?_⟩ <;>
      simp only [List.mem_cons, List.not_mem_nil, or_false, forall_eq_or_imp, forall_eq,
        UInt8.toNat_ofNat', UInt8.reduceToNat] <;> omega

theorem any_isLeadByte_encode {x y : List Char} {c : Char} {p : Nat} (hstart : width x ≤ p)
    (hstop : p < width x + c.utf8Size) :
    (encode (x ++ c :: y))[p]?.any isLeadByte = (p == width x) := by
  obtain ⟨b, rest, hbytes, hlead, hrest⟩ := isLeadByte_utf8EncodeChar c
  have hlength := String.length_utf8EncodeChar c
  rw [getElem?_encode_char hstart hstop, hbytes]
  rw [hbytes, List.length_cons] at hlength
  obtain ⟨k, rfl⟩ := Nat.exists_eq_add_of_le hstart
  cases k with
  | zero => simp [hlead]
  | succ k =>
      have hk : k < rest.length := by omega
      have hnot : (width x + (k + 1) == width x) = false := by simp
      rw [hnot, Nat.add_sub_cancel_left, List.getElem?_cons_succ, List.getElem?_eq_getElem hk]
      exact hrest _ (List.getElem_mem hk)

/-- The offsets between the characters of a text are told by its bytes. -/
theorem isBoundary_encode_iff {text : List Char} {offset : Nat} :
    isBoundary (encode text) offset = true ↔ ∃ x y, text = x ++ y ∧ offset = width x := by
  simp only [isBoundary, Bool.or_eq_true, beq_iff_eq, length_encode]
  constructor
  · rintro ((rfl | rfl) | hlead)
    · exact ⟨[], text, rfl, rfl⟩
    · exact ⟨text, [], by simp, rfl⟩
    · have hlt : offset < width text := by
        rw [← length_encode]
        apply Nat.not_le.mp
        intro hout
        simp [List.getElem?_eq_none hout] at hlead
      obtain ⟨x, c, y, rfl, hstart, hstop⟩ := exists_char_at hlt
      rw [any_isLeadByte_encode hstart hstop, beq_iff_eq] at hlead
      exact ⟨x, c :: y, rfl, hlead⟩
  · rintro ⟨x, y, rfl, rfl⟩
    cases y with
    | nil => simp
    | cons c y =>
        right
        rw [any_isLeadByte_encode (Nat.le_refl _) (Nat.lt_add_of_pos_right c.utf8Size_pos)]
        simp

end Respell.Text
