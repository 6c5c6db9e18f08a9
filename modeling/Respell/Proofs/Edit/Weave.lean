import Respell.Edit
import Respell.Proofs.Text.Cut

/-! # Edits from left to right -/

namespace Respell.Edit

open Text

/-- What stands for the character at a byte offset: a replacement where a span starts, nothing
inside of a span, and the character itself outside. -/
def written (edits : List Edit) (offset : Nat) (c : Char) : List Char :=
  match edits.find? fun edit => edit.site.span.start = offset with
  | some edit => edit.replacement
  | none =>
      if edits.any fun edit => edit.site.span.start < offset ∧ offset < edit.site.span.stop then []
      else [c]

/-- The text from a byte offset on, read from left to right with the edits made. -/
def weave (edits : List Edit) : Nat → List Char → List Char
  | _, [] => []
  | offset, c :: cs => written edits offset c ++ weave edits (offset + c.utf8Size) cs

theorem weave_append (edits : List Edit) (offset : Nat) (x y : List Char) :
    weave edits offset (x ++ y) = weave edits offset x ++ weave edits (offset + width x) y := by
  induction x generalizing offset with
  | nil => rfl
  | cons c x ih =>
      simp only [List.cons_append, weave, width_cons, List.append_assoc]
      rw [ih, Nat.add_assoc]

private theorem find?_start_eq_none {edits : List Edit} {offset : Nat}
    (h : ∀ edit ∈ edits, edit.site.span.start ≠ offset) :
    (edits.find? fun edit => edit.site.span.start = offset) = none := by
  rw [List.find?_eq_none]
  intro edit hedit
  simpa using h edit hedit

private theorem any_inside_eq_false {edits : List Edit} {offset : Nat}
    (h : ∀ edit ∈ edits, offset < edit.site.span.start ∨ edit.site.span.stop ≤ offset) :
    (edits.any fun edit => edit.site.span.start < offset ∧ offset < edit.site.span.stop) =
      false := by
  rw [List.any_eq_false]
  intro edit hedit
  have hout := h edit hedit
  simp only [decide_eq_true_eq]
  omega

private theorem written_before (edits : List Edit) {later : List Edit} {offset : Nat} (c : Char)
    (h : ∀ edit ∈ later, offset < edit.site.span.start) :
    written (edits ++ later) offset c = written edits offset c := by
  have hnone : (later.find? fun edit => edit.site.span.start = offset) = none := by
    apply find?_start_eq_none
    intro edit hedit
    have hlt := h edit hedit
    omega
  have hany := any_inside_eq_false fun edit hedit => Or.inl (h edit hedit)
  rw [written, written, List.find?_append, hnone, Option.or_none, List.any_append, hany,
    Bool.or_false]

theorem weave_before (edits : List Edit) {later : List Edit} {offset : Nat} {x : List Char}
    (h : ∀ edit ∈ later, offset + width x ≤ edit.site.span.start) :
    weave (edits ++ later) offset x = weave edits offset x := by
  induction x generalizing offset with
  | nil => rfl
  | cons c x ih =>
      have hc := c.utf8Size_pos
      simp only [width_cons] at h
      have hfirst : ∀ edit ∈ later, offset < edit.site.span.start := by
        intro edit hedit
        have hle := h edit hedit
        omega
      have hrest : ∀ edit ∈ later, offset + c.utf8Size + width x ≤ edit.site.span.start := by
        intro edit hedit
        have hle := h edit hedit
        omega
      rw [weave, weave, written_before edits c hfirst, ih hrest]

private theorem written_after (edits : List Edit) {earlier : List Edit} {offset : Nat} (c : Char)
    (h : ∀ edit ∈ earlier, edit.site.span.start < edit.site.span.stop ∧
      edit.site.span.stop ≤ offset) :
    written (earlier ++ edits) offset c = written edits offset c := by
  have hnone : (earlier.find? fun edit => edit.site.span.start = offset) = none := by
    apply find?_start_eq_none
    intro edit hedit
    have hpast := h edit hedit
    omega
  have hany := any_inside_eq_false fun edit hedit => Or.inr (h edit hedit).2
  rw [written, written, List.find?_append, hnone, Option.none_or, List.any_append, hany,
    Bool.false_or]

theorem weave_after (edits : List Edit) {earlier : List Edit} {offset : Nat} {x : List Char}
    (h : ∀ edit ∈ earlier, edit.site.span.start < edit.site.span.stop ∧
      edit.site.span.stop ≤ offset) :
    weave (earlier ++ edits) offset x = weave edits offset x := by
  induction x generalizing offset with
  | nil => rfl
  | cons c x ih =>
      have hrest : ∀ edit ∈ earlier, edit.site.span.start < edit.site.span.stop ∧
          edit.site.span.stop ≤ offset + c.utf8Size := by
        intro edit hedit
        have hpast := h edit hedit
        omega
      rw [weave, weave, written_after edits c h, ih hrest]

private theorem weave_inside (edits : List Edit) (last : Edit) {offset : Nat} {x : List Char}
    (hpast : ∀ edit ∈ edits, edit.site.span.start < last.site.span.start)
    (hstart : last.site.span.start < offset) (hstop : offset + width x ≤ last.site.span.stop) :
    weave (edits ++ [last]) offset x = [] := by
  induction x generalizing offset with
  | nil => rfl
  | cons c x ih =>
      have hc := c.utf8Size_pos
      simp only [width_cons] at hstop
      have hnone : ((edits ++ [last]).find? fun edit => edit.site.span.start = offset) = none := by
        apply find?_start_eq_none
        intro edit hedit
        rcases List.mem_append.mp hedit with hmem | hmem
        · have hlt := hpast edit hmem
          omega
        · obtain rfl : edit = last := by simpa using hmem
          omega
      have hany : ((edits ++ [last]).any fun edit =>
          edit.site.span.start < offset ∧ offset < edit.site.span.stop) = true := by
        rw [List.any_eq_true]
        refine ⟨last, by simp, ?_⟩
        simp only [decide_eq_true_eq]
        omega
      rw [weave, written, hnone, ih (by omega) (by omega)]
      simp only [hany, if_true, List.append_nil]

theorem weave_span (edits : List Edit) (last : Edit) {x : List Char} (hx : x ≠ [])
    (hpast : ∀ edit ∈ edits, edit.site.span.start < last.site.span.start)
    (hstop : last.site.span.stop = last.site.span.start + width x) :
    weave (edits ++ [last]) last.site.span.start x = last.replacement := by
  cases x with
  | nil => exact absurd rfl hx
  | cons c x =>
      have hc := c.utf8Size_pos
      simp only [width_cons] at hstop
      have hnone : (edits.find? fun edit => edit.site.span.start = last.site.span.start) =
          none := by
        apply find?_start_eq_none
        intro edit hedit
        have hlt := hpast edit hedit
        omega
      rw [weave, weave_inside edits last hpast (by omega) (by omega), List.append_nil, written,
        List.find?_append, hnone]
      simp

theorem written_outside {edits : List Edit} {offset : Nat} (c : Char)
    (h : ∀ edit ∈ edits, edit.site.span.start < edit.site.span.stop ∧
      (offset < edit.site.span.start ∨ edit.site.span.stop ≤ offset)) :
    written edits offset c = [c] := by
  have hnone : (edits.find? fun edit => edit.site.span.start = offset) = none := by
    apply find?_start_eq_none
    intro edit hedit
    have hout := h edit hedit
    omega
  have hany := any_inside_eq_false fun edit hedit => (h edit hedit).2
  rw [written, hnone]
  simp only [hany, Bool.false_eq_true, if_false]

theorem weave_nil (offset : Nat) (x : List Char) : weave [] offset x = x := by
  induction x generalizing offset with
  | nil => rfl
  | cons c x ih =>
      rw [weave, written_outside c (by simp), ih, List.singleton_append]

theorem weave_past {edits : List Edit} {offset : Nat} {x : List Char}
    (h : ∀ edit ∈ edits, edit.site.span.start < edit.site.span.stop ∧
      edit.site.span.stop ≤ offset) :
    weave edits offset x = x := by
  have hnil : weave (edits ++ []) offset x = weave [] offset x := weave_after [] h
  rw [List.append_nil] at hnil
  rw [hnil, weave_nil]

def Cuts (edit : Edit) (text : List Char) : Prop :=
  ∃ x y z, text = x ++ y ++ z ∧ y ≠ [] ∧ edit.site.span = ⟨width x, width x + width y⟩

theorem Cuts.start_lt_stop {edit : Edit} {text : List Char} (h : edit.Cuts text) :
    edit.site.span.start < edit.site.span.stop := by
  obtain ⟨x, y, z, -, hy, hspan⟩ := h
  have hpos := width_pos hy
  simp only [hspan]
  omega

theorem Cuts.of_append {edit : Edit} {x y : List Char} (h : edit.Cuts (x ++ y))
    (hstop : edit.site.span.stop ≤ width x) : edit.Cuts x := by
  obtain ⟨u, v, w, htext, hv, hspan⟩ := h
  simp only [hspan] at hstop
  rcases List.append_eq_append_iff.mp htext with ⟨rest, huv, -⟩ | ⟨rest, hx, -⟩
  · have hwidth := congrArg width huv
    simp only [width_append] at hwidth
    have hrest : rest = [] := by
      cases rest with
      | nil => rfl
      | cons c rest =>
          have hpos := width_pos (List.cons_ne_nil c rest)
          omega
    exact ⟨u, v, [], by simpa [hrest] using huv.symm, hv, hspan⟩
  · exact ⟨u, v, rest, hx, hv, hspan⟩

theorem cuts_of_fits {text : List Char} {edit : Edit} (h : edit.fits text = true) :
    edit.Cuts text := by
  unfold fits at h
  split at h
  · simp at h
  · rename_i before inside after hparts
    obtain ⟨htext, hstart, hstop⟩ := (parts?_eq_some_iff _ _ _ _ _).mp hparts
    refine ⟨before, inside, after, htext, ?_, ?_⟩
    · rintro rfl
      simp only [Bool.and_eq_true] at h
      have hcall := h.2
      unfold isCallText at hcall
      split at hcall <;> simp [isCallOf, dropBlanks] at hcall
    · rw [← hstop, ← hstart]

/-- Edits whose spans lie apart, made from the last to the first, give the text read from left to
right. -/
theorem foldlM_splice? {edits : List Edit} {text : List Char} (tail : List Char)
    (hordered : edits.Pairwise fun x y => y.site.span.stop ≤ x.site.span.start)
    (hcuts : ∀ edit ∈ edits, edit.Cuts text) :
    edits.foldlM splice? (text ++ tail) = some (weave edits.reverse 0 text ++ tail) := by
  induction edits generalizing text tail with
  | nil => simp [weave_past]
  | cons last edits ih =>
      obtain ⟨hlast, hordered⟩ := List.pairwise_cons.mp hordered
      obtain ⟨x, y, z, rfl, hy, hspan⟩ := hcuts last (by simp)
      have hearlier : ∀ edit ∈ edits, edit.Cuts x := by
        intro edit hedit
        have hcut := hcuts edit (by simp [hedit])
        rw [List.append_assoc] at hcut
        exact hcut.of_append (by simpa [hspan] using hlast edit hedit)
      have hsplice : splice? (x ++ y ++ z ++ tail) last =
          some (x ++ (last.replacement ++ (z ++ tail))) := by
        rw [splice?, hspan, List.append_assoc, replace?_append, List.append_assoc]
      have hpast : ∀ edit ∈ edits.reverse, edit.site.span.start < last.site.span.start := by
        intro edit hedit
        have hmem := List.mem_reverse.mp hedit
        have hstop := hlast edit hmem
        have hlt := (hearlier edit hmem).start_lt_stop
        omega
      have hfront : weave (edits.reverse ++ [last]) 0 x = weave edits.reverse 0 x :=
        weave_before _ (by simp [hspan])
      have hmiddle : weave (edits.reverse ++ [last]) (width x) y = last.replacement := by
        have hwoven := weave_span edits.reverse last hy hpast (by simp [hspan])
        simpa [hspan] using hwoven
      have hback : weave (edits.reverse ++ [last]) (width x + width y) z = z := by
        apply weave_past
        intro edit hedit
        have hlaststop : last.site.span.stop = width x + width y := by simp [hspan]
        rcases List.mem_append.mp hedit with hmem | hmem
        · have hmem := List.mem_reverse.mp hmem
          have hstop := hlast edit hmem
          have hlt := (hearlier edit hmem).start_lt_stop
          have hspan' := (hcuts last (by simp)).start_lt_stop
          omega
        · obtain rfl : edit = last := by simpa using hmem
          have hlt := (hcuts edit (by simp)).start_lt_stop
          omega
      rw [List.foldlM_cons, hsplice]
      simp only [Option.bind_eq_bind, Option.bind_some]
      rw [ih _ hordered hearlier, List.reverse_cons, weave_append, weave_append, Nat.zero_add,
        width_append, Nat.zero_add, hfront, hmiddle, hback]
      simp

theorem spliceAll?_eq_foldlM (text : List Char) (edits : List Numbered) :
    spliceAll? text edits = (edits.map Prod.fst).foldlM splice? text := by
  rw [spliceAll?, List.foldlM_map]

/-- Where the edits that fit lie apart, all of them are chosen. -/
theorem choose_eq_filter {text : List Char} {floor : Nat} {edits : List Numbered}
    (hfloor : ∀ edit ∈ edits, edit.1.fits text = true → edit.1.site.span.stop ≤ floor)
    (hordered : (edits.filter fun edit => edit.1.fits text).Pairwise
      fun x y => y.1.site.span.stop ≤ x.1.site.span.start) :
    choose text floor edits = edits.filter fun edit => edit.1.fits text := by
  induction edits generalizing floor with
  | nil => rfl
  | cons edit edits ih =>
      by_cases hfits : edit.1.fits text = true
      · simp only [List.filter_cons, hfits, if_true] at hordered ⊢
        obtain ⟨hlast, hordered⟩ := List.pairwise_cons.mp hordered
        rw [choose, if_pos ⟨hfloor edit (by simp) hfits, hfits⟩]
        congr 1
        apply ih _ hordered
        intro other hother hother'
        exact hlast other (List.mem_filter.mpr ⟨hother, hother'⟩)
      · simp only [List.filter_cons, hfits] at hordered ⊢
        rw [choose, if_neg fun h => hfits h.2]
        apply ih _ hordered
        intro other hother
        exact hfloor other (by simp [hother])

end Respell.Edit
