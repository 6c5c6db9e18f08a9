import Mathlib.Data.List.Infix
import Mathlib.Logic.Function.Iterate
import Respell.Proofs.Likeness.Longest

/-!
# Matched characters

Pairs wait in a list. Each round takes the first one off and puts what lies on both sides of its
longest block in its place.
-/

namespace Respell.Likeness

namespace Block

/-- The block at which two words are divided: they share it, no other that they share is longer, and
none as long begins earlier. -/
structure Leading (a b : List Char) (block : Block) : Prop where
  shared : block.Shared a b
  size_pos : 0 < block.size
  size_le : ∀ other : Block, other.Shared a b → other.size ≤ block.size
  first : ∀ other : Block, other.Shared a b → other.size = block.size → ¬other.StartsBefore block

section Words

variable {a b : List Char}

theorem Leading.unique {x y : Block} (hx : x.Leading a b) (hy : y.Leading a b) : x = y := by
  have hsize : x.size = y.size :=
    Nat.le_antisymm (hy.size_le x hx.shared) (hx.size_le y hy.shared)
  have hxy := hy.first x hx.shared hsize
  have hyx := hx.first y hy.shared hsize.symm
  simp only [StartsBefore] at hxy hyx
  have hleft : x.left = y.left := by omega
  have hright : x.right = y.right := by omega
  cases x
  cases y
  simp_all

theorem size_le_longest {other : Block} (h : other.Shared a b) :
    other.size ≤ (longest a b).size := by
  rcases Nat.eq_zero_or_pos other.size with hzero | hpos
  · omega
  · exact (longest_outranks h hpos).size_le

theorem leading_longest (h : (longest a b).size ≠ 0) : (longest a b).Leading a b where
  shared := shared_longest a b
  size_pos := Nat.pos_of_ne_zero h
  size_le := fun _ hother => size_le_longest hother
  first := by
    intro other hother hsize
    exact (longest_outranks hother (by omega)).not_startsBefore hsize

theorem exists_shared_of_infix {s : List Char} (ha : s <:+: a) (hb : s <:+: b) :
    ∃ block : Block, block.Shared a b ∧ block.size = s.length := by
  obtain ⟨u, t, rfl⟩ := ha
  obtain ⟨v, w, rfl⟩ := hb
  refine ⟨⟨u.length, v.length, s.length⟩, ⟨?_, ?_, ?_⟩, rfl⟩
  · simp
  · simp
  · rw [extract_append_left, extract_append_left]

theorem exists_shared_of_mem {c : Char} (ha : c ∈ a) (hb : c ∈ b) :
    ∃ block : Block, block.Shared a b ∧ block.size = 1 :=
  exists_shared_of_infix ((List.singleton_infix_iff c a).mpr ha)
    ((List.singleton_infix_iff c b).mpr hb)

theorem Shared.length_extract {block : Block} (h : block.Shared a b) :
    (a.extract block.left (block.left + block.size)).length = block.size := by
  have hleft := h.left_le
  simp only [List.length_take, List.length_drop]
  omega

theorem Shared.exists_mem {block : Block} (h : block.Shared a b) (hpos : 0 < block.size) :
    ∃ c ∈ a, c ∈ b := by
  have hlength := h.length_extract
  obtain ⟨c, hc⟩ := List.exists_mem_of_length_pos (hlength ▸ hpos)
  have hc' : c ∈ b.extract block.right (block.right + block.size) := h.same ▸ hc
  exact ⟨c, List.mem_of_mem_drop (List.mem_of_mem_take hc),
    List.mem_of_mem_drop (List.mem_of_mem_take hc')⟩

theorem size_longest_eq_zero_iff : (longest a b).size = 0 ↔ ∀ c ∈ a, c ∉ b := by
  constructor
  · intro hzero c ha hb
    obtain ⟨block, hshared, hsize⟩ := exists_shared_of_mem ha hb
    have hle := size_le_longest hshared
    omega
  · intro hapart
    by_contra hsize
    obtain ⟨c, ha, hb⟩ := (shared_longest a b).exists_mem (Nat.pos_of_ne_zero hsize)
    exact hapart c ha hb

end Words

end Block

/-- How many characters of two words are matched: none if they have none in common, and else those
of the leading block together with those matched on either side of it. -/
inductive Matching : List Char → List Char → Nat → Prop
  | apart {a b : List Char} (disjoint : ∀ c ∈ a, c ∉ b) : Matching a b 0
  | around {a b : List Char} {block : Block} {before after : Nat} (leading : block.Leading a b)
      (left : Matching (a.take block.left) (b.take block.right) before)
      (right : Matching (a.drop (block.left + block.size)) (b.drop (block.right + block.size))
        after) :
      Matching a b (block.size + before + after)

namespace Matching

variable {a b : List Char} {n : Nat}

theorem eq_zero (h : Matching a b n) (hsize : (Block.longest a b).size = 0) : n = 0 := by
  cases h with
  | apart disjoint => rfl
  | around leading left right =>
      have hle := Block.size_le_longest leading.shared
      have hpos := leading.size_pos
      omega

theorem sides (h : Matching a b n) (hsize : (Block.longest a b).size ≠ 0) :
    ∃ before after,
      Matching ((Block.longest a b).leftOf a b).1 ((Block.longest a b).leftOf a b).2 before ∧
      Matching ((Block.longest a b).rightOf a b).1 ((Block.longest a b).rightOf a b).2 after ∧
      n = (Block.longest a b).size + before + after := by
  cases h with
  | apart disjoint => exact absurd (Block.size_longest_eq_zero_iff.mpr disjoint) hsize
  | @around _ _ block before after leading left right =>
      obtain rfl := leading.unique (Block.leading_longest hsize)
      exact ⟨before, after, left, right, rfl⟩

theorem exists_matching (a b : List Char) : ∃ n, Matching a b n := by
  induction hlength : a.length using Nat.strong_induction_on generalizing a b with
  | _ length ih =>
      by_cases hsize : (Block.longest a b).size = 0
      · exact ⟨0, apart (Block.size_longest_eq_zero_iff.mp hsize)⟩
      · have hleading := Block.leading_longest hsize
        have hpos := hleading.size_pos
        have hleft := hleading.shared.left_le
        obtain ⟨before, hbefore⟩ := ih _ (by rw [List.length_take]; omega)
          (a.take (Block.longest a b).left) (b.take (Block.longest a b).right) rfl
        obtain ⟨after, hafter⟩ := ih _ (by rw [List.length_drop]; omega)
          (a.drop ((Block.longest a b).left + (Block.longest a b).size))
          (b.drop ((Block.longest a b).right + (Block.longest a b).size)) rfl
        exact ⟨_, around hleading hbefore hafter⟩

end Matching

@[ext]
structure Progress where
  total : Nat
  pending : List (List Char × List Char)

namespace Progress

/-- One round: the first pair is taken off, and both sides of its block are put in its place. -/
def step : Progress → Progress
  | ⟨total, []⟩ => ⟨total, []⟩
  | ⟨total, (a, b) :: pairs⟩ =>
      let block := Block.longest a b
      if block.size = 0 then ⟨total, pairs⟩
      else ⟨total + block.size, block.rightOf a b :: block.leftOf a b :: pairs⟩

section Round

variable {a b : List Char}

theorem step_apart (h : (Block.longest a b).size = 0) (total : Nat)
    (pairs : List (List Char × List Char)) : step ⟨total, (a, b) :: pairs⟩ = ⟨total, pairs⟩ := by
  simp only [step, if_pos h]

theorem step_around (h : (Block.longest a b).size ≠ 0) (total : Nat)
    (pairs : List (List Char × List Char)) :
    step ⟨total, (a, b) :: pairs⟩ =
      ⟨total + (Block.longest a b).size,
        (Block.longest a b).rightOf a b :: (Block.longest a b).leftOf a b :: pairs⟩ := by
  simp only [step, if_neg h]

end Round

def OfWindows (a b : List Char) (pair : List Char × List Char) : Prop :=
  ∃ (s : Window a) (t : Window b), pair = (s.chars, t.chars)

theorem ofWindows_step {a b : List Char} {progress : Progress}
    (h : ∀ pair ∈ progress.pending, OfWindows a b pair) :
    ∀ pair ∈ progress.step.pending, OfWindows a b pair := by
  obtain ⟨total, pairs⟩ := progress
  cases pairs with
  | nil => exact h
  | cons pair pairs =>
      obtain ⟨⟨s, t, rfl⟩, hpairs⟩ := List.forall_mem_cons.mp h
      by_cases hsize : (Block.longest s.chars t.chars).size = 0
      · rw [step_apart hsize]
        exact hpairs
      · have hshared := Block.shared_longest s.chars t.chars
        have hleft := hshared.left_le
        have hright := hshared.right_le
        rw [step_around hsize, List.forall_mem_cons, List.forall_mem_cons]
        refine ⟨⟨s.drop _ hleft, t.drop _ hright, ?_⟩,
          ⟨s.take _ (Nat.le_of_add_right_le hleft), t.take _ (Nat.le_of_add_right_le hright), ?_⟩,
          hpairs⟩
        · rw [s.chars_drop, t.chars_drop]
          rfl
        · rw [s.chars_take, t.chars_take]
          rfl

/-- All pairs that ever wait are stretches of the two words, and the block of a pair is the one
found in these stretches. -/
theorem pending_windows (a b : List Char) (rounds : Nat) :
    ∀ pair ∈ (step^[rounds] ⟨0, [(a, b)]⟩).pending, ∃ (s : Window a) (t : Window b),
      pair = (s.chars, t.chars) ∧
        (Block.longest pair.1 pair.2).shift s.start t.start = Block.longestIn s t := by
  have hpending : ∀ pair ∈ (step^[rounds] ⟨0, [(a, b)]⟩).pending, OfWindows a b pair := by
    induction rounds with
    | zero =>
        intro pair hpair
        obtain rfl := List.mem_singleton.mp hpair
        exact ⟨.whole a, .whole b, by rw [Window.chars_whole, Window.chars_whole]⟩
    | succ rounds ih =>
        rw [Function.iterate_succ_apply']
        exact ofWindows_step ih
  intro pair hpair
  obtain ⟨s, t, rfl⟩ := hpending pair hpair
  exact ⟨s, t, rfl, rfl⟩

theorem total_iterate_step (rounds total : Nat) (pairs : List (List Char × List Char)) :
    (step^[rounds] ⟨total, pairs⟩).total = total + matchedIn rounds pairs := by
  induction rounds generalizing total pairs with
  | zero => cases pairs <;> rfl
  | succ rounds ih =>
      rw [Function.iterate_succ_apply]
      cases pairs with
      | nil => simpa [step, matchedIn] using ih total []
      | cons pair pairs =>
          by_cases hsize : (Block.longest pair.1 pair.2).size = 0
          · rw [step_apart hsize, ih, matchedIn, if_pos hsize]
          · rw [step_around hsize, ih, matchedIn, if_neg hsize, Nat.add_assoc]

def weight : List (List Char × List Char) → Nat
  | [] => 0
  | (a, _) :: pairs => 2 * a.length + 1 + weight pairs

theorem weight_step_le (progress : Progress) :
    weight progress.step.pending ≤ weight progress.pending - 1 := by
  obtain ⟨total, pairs⟩ := progress
  cases pairs with
  | nil => exact Nat.le_refl _
  | cons pair pairs =>
      by_cases hsize : (Block.longest pair.1 pair.2).size = 0
      · rw [step_apart hsize]
        simp only [weight]
        omega
      · -- two pairs come for one, but they are shorter by the size of the block
        have hleft := (Block.shared_longest pair.1 pair.2).left_le
        rw [step_around hsize]
        simp only [weight, Block.rightOf, Block.leftOf, List.length_take, List.length_drop]
        omega

theorem weight_iterate_step_le (progress : Progress) (rounds : Nat) :
    weight (step^[rounds] progress).pending ≤ weight progress.pending - rounds := by
  induction rounds with
  | zero => exact Nat.le_refl _
  | succ rounds ih =>
      rw [Function.iterate_succ_apply']
      have hstep := weight_step_le (step^[rounds] progress)
      omega

theorem pending_iterate_step {progress : Progress} {rounds : Nat}
    (h : weight progress.pending ≤ rounds) : (step^[rounds] progress).pending = [] := by
  have hweight := weight_iterate_step_le progress rounds
  cases hpending : (step^[rounds] progress).pending with
  | nil => rfl
  | cons pair pairs =>
      rw [hpending, weight] at hweight
      omega

inductive Owes : List (List Char × List Char) → Nat → Prop
  | nil : Owes [] 0
  | cons {pair : List Char × List Char} {pairs : List (List Char × List Char)} {m n : Nat}
      (first : Matching pair.1 pair.2 m) (others : Owes pairs n) : Owes (pair :: pairs) (m + n)

/-- What the comparison comes to: what was counted, and what the pairs that wait will add. -/
def Settles (progress : Progress) (n : Nat) : Prop :=
  ∃ due, Owes progress.pending due ∧ progress.total + due = n

theorem Settles.step {progress : Progress} {n : Nat} (h : progress.Settles n) :
    progress.step.Settles n := by
  obtain ⟨total, pairs⟩ := progress
  obtain ⟨due, howes, rfl⟩ := h
  cases howes with
  | nil => exact ⟨0, Owes.nil, rfl⟩
  | @cons pair pairs m due first others =>
      by_cases hsize : (Block.longest pair.1 pair.2).size = 0
      · obtain rfl := first.eq_zero hsize
        rw [step_apart hsize]
        exact ⟨due, others, by rw [Nat.zero_add]⟩
      · obtain ⟨before, after, hbefore, hafter, rfl⟩ := first.sides hsize
        rw [step_around hsize]
        refine ⟨after + (before + due), Owes.cons hafter (Owes.cons hbefore others), ?_⟩
        simp only
        omega

theorem Settles.iterate_step {progress : Progress} {n : Nat} (h : progress.Settles n)
    (rounds : Nat) : (Progress.step^[rounds] progress).Settles n := by
  induction rounds with
  | zero => exact h
  | succ rounds ih =>
      rw [Function.iterate_succ_apply']
      exact ih.step

theorem Settles.total_eq {progress : Progress} {n : Nat} (h : progress.Settles n)
    (hpending : progress.pending = []) : progress.total = n := by
  obtain ⟨due, howes, rfl⟩ := h
  rw [hpending] at howes
  cases howes
  rfl

end Progress

theorem iterate_step_matched (a b : List Char) :
    Progress.step^[2 * a.length + 1] ⟨0, [(a, b)]⟩ = ⟨matched a b, []⟩ := by
  apply Progress.ext
  · rw [Progress.total_iterate_step, Nat.zero_add]
    rfl
  · exact Progress.pending_iterate_step (Nat.le_refl (Progress.weight [(a, b)]))

theorem Matching.matched_eq {a b : List Char} {n : Nat} (h : Matching a b n) :
    matched a b = n := by
  have hstart : (Progress.mk 0 [(a, b)]).Settles n :=
    ⟨n, Progress.Owes.cons h Progress.Owes.nil, Nat.zero_add n⟩
  have hend := hstart.iterate_step (2 * a.length + 1)
  rw [iterate_step_matched] at hend
  exact hend.total_eq rfl

theorem matching_matched (a b : List Char) : Matching a b (matched a b) := by
  obtain ⟨n, hn⟩ := Matching.exists_matching a b
  rw [hn.matched_eq]
  exact hn

/-- The comparison of two words comes to its end, with no pair left after a number of rounds that
the first word bounds, and counts exactly the characters that recursion on both sides of the
leading block matches. -/
theorem matched_recursive (a b : List Char) :
    Progress.step^[2 * a.length + 1] ⟨0, [(a, b)]⟩ = ⟨matched a b, []⟩ ∧
      ∀ n, matched a b = n ↔ Matching a b n := by
  refine ⟨iterate_step_matched a b, ?_⟩
  intro n
  constructor
  · intro hn
    exact hn ▸ matching_matched a b
  · exact Matching.matched_eq

theorem sublist_around {s t word : List Char} {i size : Nat} (hs : s.Sublist (word.take i))
    (ht : t.Sublist (word.drop (i + size))) :
    (s ++ word.extract i (i + size) ++ t).Sublist word := by
  have hword : word.take i ++ word.extract i (i + size) ++ word.drop (i + size) = word := by
    rw [List.extract_eq_take_drop, Nat.add_sub_cancel_left, ← List.drop_drop, List.append_assoc,
      List.take_append_drop, List.take_append_drop]
  have happend := (hs.append (List.Sublist.refl (word.extract i (i + size)))).append ht
  rwa [hword] at happend

/-- The matched characters stand in the same order in both words. -/
theorem Matching.exists_sublist {a b : List Char} {n : Nat} (h : Matching a b n) :
    ∃ s : List Char, s.Sublist a ∧ s.Sublist b ∧ s.length = n := by
  induction h with
  | apart disjoint => exact ⟨[], List.nil_sublist _, List.nil_sublist _, rfl⟩
  | @around a b block before after leading left right ihleft ihright =>
      obtain ⟨s, hsa, hsb, rfl⟩ := ihleft
      obtain ⟨t, hta, htb, rfl⟩ := ihright
      refine ⟨s ++ a.extract block.left (block.left + block.size) ++ t, sublist_around hsa hta,
        ?_, ?_⟩
      · rw [leading.shared.same]
        exact sublist_around hsb htb
      · rw [List.length_append, List.length_append, leading.shared.length_extract]
        omega

theorem Matching.size_le {a b : List Char} {n : Nat} (h : Matching a b n) {block : Block}
    (hshared : block.Shared a b) : block.size ≤ n := by
  cases h with
  | apart disjoint =>
      by_contra hpos
      obtain ⟨c, ha, hb⟩ := hshared.exists_mem (by omega)
      exact disjoint c ha hb
  | around leading left right =>
      have hle := leading.size_le block hshared
      omega

theorem two_mul_matched_le (a b : List Char) : 2 * matched a b ≤ a.length + b.length := by
  obtain ⟨s, hsa, hsb, hlength⟩ := (matching_matched a b).exists_sublist
  have hlea := hsa.length_le
  have hleb := hsb.length_le
  omega

theorem matched_of_infix {a b : List Char} (h : b <:+: a) : matched a b = b.length := by
  have hmatching := matching_matched a b
  apply le_antisymm
  · obtain ⟨s, -, hsb, hlength⟩ := hmatching.exists_sublist
    exact hlength ▸ hsb.length_le
  · obtain ⟨block, hshared, hsize⟩ := Block.exists_shared_of_infix h List.infix_rfl
    exact hsize ▸ hmatching.size_le hshared

/-- The matched characters are at least as many as in any stretch that both words have, and make up
a common subsequence. So they are at most half of the characters of both words, and only for equal
words are they as many. None are matched exactly if the words have no character in common. -/
theorem matched_bounds (a b : List Char) :
    (∀ s : List Char, s <:+: a → s <:+: b → s.length ≤ matched a b) ∧
    (∃ s : List Char, s.Sublist a ∧ s.Sublist b ∧ s.length = matched a b) ∧
    2 * matched a b ≤ a.length + b.length ∧
    (2 * matched a b = a.length + b.length ↔ a = b) ∧
    (matched a b = 0 ↔ ∀ c ∈ a, c ∉ b) := by
  have hmatching := matching_matched a b
  have hsubstring : ∀ s : List Char, s <:+: a → s <:+: b → s.length ≤ matched a b := by
    intro s ha hb
    obtain ⟨block, hshared, hsize⟩ := Block.exists_shared_of_infix ha hb
    rw [← hsize]
    exact hmatching.size_le hshared
  obtain ⟨s, hsa, hsb, hlength⟩ := hmatching.exists_sublist
  have hlea := hsa.length_le
  have hleb := hsb.length_le
  refine ⟨hsubstring, ⟨s, hsa, hsb, hlength⟩, by omega, ?_, ?_⟩
  · constructor
    · intro hfull
      rw [← hsa.eq_of_length (by omega), ← hsb.eq_of_length (by omega)]
    · rintro rfl
      have hwhole := hsubstring a List.infix_rfl List.infix_rfl
      omega
  · constructor
    · intro hnone c ha hb
      obtain ⟨block, hshared, hsize⟩ := Block.exists_shared_of_mem ha hb
      have hone := hmatching.size_le hshared
      omega
    · intro hapart
      exact (Matching.apart hapart).matched_eq

end Respell.Likeness
