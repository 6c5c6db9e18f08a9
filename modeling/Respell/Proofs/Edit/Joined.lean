import Respell.Proofs.Edit.Weave
import Respell.Proofs.Site.Statement

namespace Respell.Edit

open Text

def shift (distance : Nat) (edit : Edit) : Edit :=
  { edit with site := edit.site.shift distance }

theorem written_shift (edits : List Edit) (distance offset : Nat) (c : Char) :
    written (edits.map (shift distance)) (offset + distance) c = written edits offset c := by
  have hstart : (fun edit => decide (edit.site.span.start = offset + distance)) ∘ shift distance =
      fun edit => decide (edit.site.span.start = offset) := by
    funext edit
    exact decide_eq_decide.mpr Nat.add_right_cancel_iff
  have hinside : (fun edit => decide (edit.site.span.start < offset + distance ∧
        offset + distance < edit.site.span.stop)) ∘ shift distance =
      fun edit => decide (edit.site.span.start < offset ∧ offset < edit.site.span.stop) := by
    funext edit
    exact decide_eq_decide.mpr
      (and_congr Nat.add_lt_add_iff_right Nat.add_lt_add_iff_right)
  unfold written
  rw [List.find?_map, List.any_map, hstart, hinside]
  cases edits.find? fun edit => decide (edit.site.span.start = offset) <;> rfl

theorem weave_shift (edits : List Edit) (distance offset : Nat) (x : List Char) :
    weave (edits.map (shift distance)) (offset + distance) x = weave edits offset x := by
  induction x generalizing offset with
  | nil => rfl
  | cons c x ih =>
      have hoffset : offset + distance + c.utf8Size = offset + c.utf8Size + distance := by omega
      rw [weave, weave, written_shift, hoffset, ih]

/-- Each of two texts that are joined is woven from its own edits. -/
theorem weave_joined {early : List Edit} (late : List Edit) {x : List Char} (y : List Char)
    (hearly : ∀ edit ∈ early, edit.site.span.start < edit.site.span.stop ∧
      edit.site.span.stop ≤ width x) :
    weave (early ++ late.map (shift (width x))) 0 (x ++ y) =
      weave early 0 x ++ weave late 0 y := by
  have hlate : ∀ edit ∈ late.map (shift (width x)), 0 + width x ≤ edit.site.span.start := by
    intro edit hedit
    obtain ⟨edit, -, rfl⟩ := List.mem_map.mp hedit
    simp only [shift, Site.shift]
    omega
  have hsecond := weave_shift late (width x) 0 y
  rw [Nat.zero_add] at hsecond
  rw [weave_append, weave_before early hlate, Nat.zero_add, weave_after _ hearly, hsecond]

section Firsts

private theorem firstOfEach_filter (change : Change) (changes : List Change) :
    firstOfEach (changes.filter fun other =>
        (other.word, other.suggestion) ≠ (change.word, change.suggestion)) =
      (firstOfEach changes).filter fun other =>
        (other.word, other.suggestion) ≠ (change.word, change.suggestion) := by
  induction changes with
  | nil => rfl
  | cons first changes ih =>
      rw [firstOfEach, List.filter_cons, List.filter_cons]
      by_cases hsame : (first.word, first.suggestion) = (change.word, change.suggestion)
      · simp only [hsame, ne_eq, not_true, decide_false, Bool.false_eq_true, if_false, ih,
          List.filter_filter, Bool.and_self]
      · simp only [ne_eq, hsame, not_false_eq_true, decide_true, if_true, firstOfEach, ih,
          List.filter_filter, Bool.and_comm]

private theorem firstOfEach_append_left (early late : List Change) :
    firstOfEach (firstOfEach early ++ late) = firstOfEach (early ++ late) := by
  induction early with
  | nil => rfl
  | cons change early ih =>
      rw [firstOfEach, List.cons_append, firstOfEach, List.cons_append, firstOfEach, ← ih,
        ← firstOfEach_filter change (_ ++ late), ← firstOfEach_filter change (_ ++ late),
        List.filter_append, List.filter_append, List.filter_filter]
      simp only [Bool.and_self]

theorem firstOfEach_joined (early late : List Change) :
    firstOfEach (firstOfEach early ++ firstOfEach late) = firstOfEach (early ++ late) := by
  rw [firstOfEach_append_left]
  induction early with
  | nil =>
      have hagain := firstOfEach_append_left late []
      rwa [List.append_nil, List.append_nil] at hagain
  | cons change early ih => rw [List.cons_append, firstOfEach, ih, List.cons_append, firstOfEach]

end Firsts

end Respell.Edit
