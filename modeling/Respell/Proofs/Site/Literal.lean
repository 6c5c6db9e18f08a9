import Mathlib.Algebra.Group.Nat.Even
import Respell.Proofs.Site.Call
import Respell.Proofs.Text.Marks

namespace Respell

open Text

namespace Quotes

theorem eq_empty_of_closed {quotes : Quotes} (h : quotes.closed = true) : quotes = {} := by
  obtain ⟨double, single⟩ := quotes
  cases double <;> cases single <;> simp_all [closed]

theorem step_flips (quotes : Quotes) (previous : Option Char) (c : Char) :
    (quotes.step previous c).double =
        (if previous ≠ some '\x5c' ∧ c = '\x22' then !quotes.double else quotes.double) ∧
      (quotes.step previous c).single =
        if previous ≠ some '\x5c' ∧ c = '\x27' then !quotes.single else quotes.single := by
  unfold step
  by_cases hescape : previous = some '\x5c'
  · simp [hescape]
  · by_cases hdouble : c = '\x22'
    · simp [hescape, hdouble]
    · by_cases hsingle : c = '\x27' <;> simp [hescape, hdouble, hsingle]

private theorem passing_eq_iff {mark : Char} {isOpen : Quotes → Bool}
    (hstep : ∀ quotes previous c, isOpen (step quotes previous c) =
      if previous ≠ some '\x5c' ∧ c = mark then !isOpen quotes else isOpen quotes)
    (quotes : Quotes) (before text : List Char) :
    isOpen (quotes.passing before text) = isOpen quotes ↔
      Even (unescaped '\x5c' mark before.head? text) := by
  induction text generalizing quotes before with
  | nil => simp [passing, unescaped]
  | cons c text ih =>
      have hnext := ih (quotes.step before.head? c) (c :: before)
      rw [hstep, List.head?_cons] at hnext
      rw [passing, unescaped_cons]
      by_cases hflip : before.head? ≠ some '\x5c' ∧ c = mark
      · rw [if_pos hflip] at hnext ⊢
        rw [Nat.even_add_one, ← hnext]
        cases isOpen quotes <;> simp
      · rw [if_neg hflip] at hnext ⊢
        rw [Nat.add_zero, ← hnext]

theorem closed_passing_iff (text : List Char) :
    (passing {} [] text).closed = true ↔
      Even (unescaped '\x5c' '\x22' none text) ∧ Even (unescaped '\x5c' '\x27' none text) := by
  have hdouble := passing_eq_iff
    (fun quotes previous c => (step_flips quotes previous c).1) {} [] text
  have hsingle := passing_eq_iff
    (fun quotes previous c => (step_flips quotes previous c).2) {} [] text
  rw [List.head?_nil] at hdouble hsingle
  rw [← hdouble, ← hsingle, closed, Bool.and_eq_true, Bool.not_eq_true', Bool.not_eq_true']

section Bytes

variable {x y : List Char} {c : Char} {p : Nat} (hstart : width x ≤ p)
  (hstop : p < width x + c.utf8Size)

include hstart hstop

theorem closed_passing_iff_bytes :
    (passing {} [] x).closed = true ↔
      Even (unescaped 0x5C 0x22 none ((encode (x ++ c :: y)).take p)) ∧
        Even (unescaped 0x5C 0x27 none ((encode (x ++ c :: y)).take p)) := by
  have hbefore : ∀ mark : Char, mark.toNat < 128 →
      unescaped 0x5C mark.toUInt8 none ((encode (x ++ c :: y)).take p) =
        unescaped '\x5c' mark none x := by
    intro mark hmark
    exact unescaped_take_encode (by decide : '\x5c'.toNat < 128) hmark hstart hstop
  have hdouble := hbefore '\x22' (by decide)
  have hsingle := hbefore '\x27' (by decide)
  rw [closed_passing_iff, ← hdouble, ← hsingle]
  rfl

theorem ne_quote_of_isPlain (hc : isPlain c = true) {b : UInt8}
    (hb : (encode (x ++ c :: y))[p]? = some b) : b ≠ 0x22 ∧ b ≠ 0x27 := by
  have hquote : ∀ mark : Char, mark.toNat < 128 → isPlain mark = false → b ≠ mark.toUInt8 := by
    intro mark hmark hplain heq
    rw [heq] at hb
    obtain rfl := eq_of_getElem?_encode hmark hstart hstop hb
    rw [hc] at hplain
    exact Bool.noConfusion hplain
  exact ⟨hquote '\x22' (by decide) (by decide), hquote '\x27' (by decide) (by decide)⟩

end Bytes

end Quotes

namespace Call

theorem closed_of_inside (call : Call) {x y u v : List Char} {c : Char}
    (htext : x ++ call.chars ++ y = u ++ c :: v)
    (hclosed : (Quotes.passing {} [] x).closed = true) (hstart : width x ≤ width u)
    (hstop : width u < width x + width call.chars) :
    (Quotes.passing {} [] u).closed = true ∧ Quotes.isPlain c = true := by
  have hplain := call.isPlain_of_mem_chars
  rw [List.append_assoc] at htext
  obtain ⟨w, rfl, hrest⟩ := exists_append_of_width_le htext hstart
  rw [width_append] at hstop
  obtain ⟨z, hchars, hz⟩ := exists_append_of_width_le hrest.symm (by omega)
  cases z with
  | nil =>
      rw [hchars, List.append_nil] at hstop
      omega
  | cons d z =>
      obtain ⟨rfl, -⟩ := List.cons.inj hz
      refine ⟨?_, hplain c (by simp [hchars])⟩
      rw [Quotes.passing_append, Quotes.passing_of_isPlain]
      · exact hclosed
      · intro d hd
        exact hplain d (by simp [hchars, hd])

end Call

end Respell
