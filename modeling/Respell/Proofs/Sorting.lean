namespace Respell

/-- The entries of a list that come first in some order, at most `limit` of them. While there is
room none is left out, and those left out come after all the others. -/
structure Foremost {α : Type} (before : α → α → Prop) (limit : Nat) (all first : List α) :
    Prop where
  mem : ∀ x ∈ first, x ∈ all
  ordered : first.Pairwise before
  length_le : first.length ≤ limit
  complete : first.length < limit → ∀ x ∈ all, x ∈ first
  after : ∀ x ∈ all, x ∉ first → ∀ y ∈ first, before y x

theorem Foremost.exists_head {α : Type} {before : α → α → Prop} {limit : Nat} {all first : List α}
    (h : Foremost before limit all first) (room : 0 < limit) {x : α} (hx : x ∈ all) :
    ∃ best others, first = best :: others ∧ (x = best ∨ before best x) := by
  cases first with
  | nil => cases h.complete room x hx
  | cons best others =>
      refine ⟨best, others, rfl, ?_⟩
      by_cases hfirst : x ∈ best :: others
      · apply (List.mem_cons.mp hfirst).imp_right
        intro hother
        exact List.rel_of_pairwise_cons h.ordered hother
      · exact Or.inr (h.after x hx hfirst best List.mem_cons_self)

/-- One entry of a list is worth more than another, or as much and stands before it. -/
def Ahead {α β : Type} [LT β] (worth : α → β) (source : List α) (x y : α) : Prop :=
  worth y < worth x ∨ worth y = worth x ∧ [x, y].Sublist source

section Stable

variable {α : Type} {le : α → α → Bool}
  (trans : ∀ x y z, le x y = true → le y z = true → le x z = true)
  (total : ∀ x y, (le x y || le y x) = true)

include trans total

theorem filter_mergeSort_ties (all : List α) (x : α) :
    (all.mergeSort le).filter (fun y => le x y && le y x) =
      all.filter fun y => le x y && le y x := by
  have hties : (all.filter fun y => le x y && le y x).Pairwise fun y z => le y z = true := by
    rw [List.pairwise_filter]
    apply List.pairwise_of_forall
    intro y z hy hz
    simp only [Bool.and_eq_true] at hy hz
    exact trans y x z hy.2 hz.1
  have hsub : (all.filter fun y => le x y && le y x).Sublist (all.mergeSort le) :=
    List.sublist_mergeSort trans total hties List.filter_sublist
  have hfilter := hsub.filter fun y => le x y && le y x
  rw [List.filter_filter] at hfilter
  simp only [Bool.and_self] at hfilter
  apply (hfilter.eq_of_length _).symm
  exact ((List.mergeSort_perm all le).filter _).length_eq.symm

/-- A stable sort keeps whatever holds of each entry and those after it, for entries that tie. -/
theorem pairwise_mergeSort_stable {R : α → α → Prop} {all : List α} (h : all.Pairwise R) :
    (all.mergeSort le).Pairwise fun x y => le x y = true ∧ (le y x = true → R x y) := by
  rw [List.pairwise_iff_forall_sublist]
  intro x y hpair
  have hsorted := List.pairwise_mergeSort trans total all
  have hxy : le x y = true := List.pairwise_iff_forall_sublist.mp hsorted hpair
  refine ⟨hxy, ?_⟩
  intro hyx
  have hxx : le x x = true := by simpa using total x x
  have hties := hpair.filter fun z => le x z && le z x
  rw [filter_mergeSort_ties trans total all x] at hties
  have hkept : [x, y].Sublist (all.filter fun z => le x z && le z x) := by
    simpa [hxx, hxy, hyx] using hties
  exact List.pairwise_iff_forall_sublist.mp h (hkept.trans List.filter_sublist)

/-- The first entries of a sorted list come before all others: those worth more and, of two that
tie, the one that is first in the list from which they were taken. -/
theorem foremost_take_mergeSort {β : Type} [LT β] {worth : α → β} {source all : List α}
    (hsource : all.Sublist source) (limit : Nat)
    (hle : ∀ x ∈ all, ∀ y ∈ all, le x y = true →
      worth y < worth x ∨ worth y = worth x ∧ le y x = true) :
    Foremost (Ahead worth source) limit all ((all.mergeSort le).take limit) := by
  have hpairs : all.Pairwise fun x y => [x, y].Sublist all :=
    List.pairwise_iff_forall_sublist.mpr id
  have hsorted : (all.mergeSort le).Pairwise (Ahead worth source) := by
    apply (pairwise_mergeSort_stable trans total hpairs).imp_of_mem
    intro x y hx hy hxy
    rcases hle x (List.mem_mergeSort.mp hx) y (List.mem_mergeSort.mp hy) hxy.1 with
      hless | ⟨heq, hyx⟩
    · exact Or.inl hless
    · exact Or.inr ⟨heq, (hxy.2 hyx).trans hsource⟩
  have hcut : ((all.mergeSort le).take limit ++ (all.mergeSort le).drop limit).Pairwise
      (Ahead worth source) := by
    rw [List.take_append_drop]
    exact hsorted
  obtain ⟨hfirst, -, hacross⟩ := List.pairwise_append.mp hcut
  refine ⟨?_, hfirst, List.length_take_le _ _, ?_, ?_⟩
  · intro x hx
    exact List.mem_mergeSort.mp (List.mem_of_mem_take hx)
  · intro hroom x hx
    have hshort : (all.mergeSort le).length ≤ limit := by
      rw [List.length_take] at hroom
      omega
    rw [List.take_of_length_le hshort]
    exact List.mem_mergeSort.mpr hx
  · intro x hx hout y hy
    apply hacross y hy x
    have hmem : x ∈ (all.mergeSort le).take limit ++ (all.mergeSort le).drop limit := by
      rw [List.take_append_drop]
      exact List.mem_mergeSort.mpr hx
    exact (List.mem_append.mp hmem).resolve_left hout

end Stable

end Respell
