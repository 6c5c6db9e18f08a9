import Respell.Proofs.Likeness.Order
import Respell.Proofs.Proofreader.Suggestions
import Respell.Proofs.Sorting

namespace Respell

namespace Candidate

theorem bySpelling_eq_take (cutoff : Float) (pool : List String) (word : String) (limit : Nat) :
    bySpelling cutoff pool word limit =
      ((pool.filter fun candidate => cutoff ≤ Likeness.score word candidate).mergeSort
        fun x y => Likeness.atLeast (Likeness.score word x) (Likeness.score word y)).take
          (spellingLimit limit) := by
  have hsort : ∀ close : List String,
      (close.map fun candidate => (candidate, Likeness.score word candidate)).mergeSort
          (fun x y => Likeness.atLeast x.2 y.2) =
        (close.mergeSort fun x y =>
          Likeness.atLeast (Likeness.score word x) (Likeness.score word y)).map
            fun candidate => (candidate, Likeness.score word candidate) := by
    intro close
    rw [List.map_mergeSort]
    intro x _ y _
    rfl
  rw [bySpelling, Likeness.closest, List.filter_map, hsort, ← List.map_take, List.map_map]
  exact List.map_id _

theorem bySpelling_of_pairwise {cutoff : Float} {pool close : List String} {word : String}
    (hclose : pool.filter (fun candidate => cutoff ≤ Likeness.score word candidate) = close)
    (horder : close.Pairwise fun x y =>
      Likeness.atLeast (Likeness.score word x) (Likeness.score word y) = true) (limit : Nat) :
    bySpelling cutoff pool word limit = close.take (spellingLimit limit) := by
  rw [bySpelling_eq_take, hclose, List.mergeSort_of_pairwise horder]

theorem foremost_bySpelling (cutoff : Float) (pool : List String) (word : String) (limit : Nat) :
    Foremost (Ahead (Likeness.score word) pool) (spellingLimit limit)
      (pool.filter fun candidate => cutoff ≤ Likeness.score word candidate)
      (bySpelling cutoff pool word limit) := by
  rw [bySpelling_eq_take]
  apply foremost_take_mergeSort
  · intro x y z hxy hyz
    simp only [Likeness.atLeast, decide_eq_true_iff] at hxy hyz ⊢
    exact UInt64.le_trans hyz hxy
  · intro x y
    simp only [Likeness.atLeast, ← Bool.decide_or, decide_eq_true_iff]
    exact UInt64.le_total _ _
  · exact List.filter_sublist
  · intro x hx y hy hxy
    have hreaches : ∀ z ∈ pool.filter fun candidate => cutoff ≤ Likeness.score word candidate,
        cutoff ≤ Likeness.score word z := by
      intro z hz
      exact of_decide_eq_true (List.mem_filter.mp hz).2
    have horder := Likeness.atLeast_iff (Likeness.toBits_score_lt word x)
      (Likeness.toBits_score_lt word y) (hreaches x hx) (hreaches y hy)
    apply (horder.mp hxy).imp_right
    intro heq
    have hties : Likeness.atLeast (Likeness.score word y) (Likeness.score word x) = true := by
      simp [Likeness.atLeast, heq]
    exact ⟨heq, hties⟩

theorem cutoff_le_of_mem_bySpelling {cutoff : Float} {pool : List String} {word other : String}
    {limit : Nat} (h : other ∈ bySpelling cutoff pool word limit) :
    cutoff ≤ Likeness.score word other := by
  obtain ⟨-, hreaches⟩ :=
    List.mem_filter.mp ((foremost_bySpelling cutoff pool word limit).mem other h)
  exact of_decide_eq_true hreaches

theorem foremost_rank (thresholds : Thresholds) (lexicon : Lexicon) (query : Query) :
    Foremost (Ahead confidence (found thresholds lexicon query)) query.limit
      ((found thresholds lexicon query).filter fun candidate =>
        thresholds.minConfidence ≤ candidate.confidence)
      (rank thresholds lexicon query) := by
  rw [rank_eq_take, ordered]
  apply foremost_take_mergeSort
  · intro x y z hxy hyz
    simp only [decide_eq_true_iff] at hxy hyz ⊢
    exact Nat.le_trans hyz hxy
  · intro x y
    simp only [← Bool.decide_or, decide_eq_true_iff]
    exact Nat.le_total _ _
  · exact List.filter_sublist
  · intro x hx y hy hxy
    simp only [decide_eq_true_iff] at hxy ⊢
    omega

end Candidate

namespace Advisor

/-- An advisor for a lexicon after any queries, whose memory may have been cleared at times.
Queries that come at the same time may take turns at the memory. -/
inductive Reachable (lexicon : Lexicon) (thresholds : Thresholds) : Advisor → Prop
  | fresh (capacity : Nat) (positive : 0 < capacity) :
      Reachable lexicon thresholds (fresh lexicon thresholds capacity positive)
  | consult {advisor : Advisor} (before : Reachable lexicon thresholds advisor) (query : Query) :
      Reachable lexicon thresholds (advisor.consult query).2
  | look {advisor : Advisor} (before : Reachable lexicon thresholds advisor) {query : Query}
      (asks : query.word ≠ "") (wants : 1 ≤ query.limit) :
      Reachable lexicon thresholds { advisor with memo := (advisor.memo.look query).2 }
  | put {advisor : Advisor} (before : Reachable lexicon thresholds advisor) {query : Query}
      (asks : query.word ≠ "") (wants : 1 ≤ query.limit) :
      Reachable lexicon thresholds { advisor with
        memo := advisor.memo.put query
          (Candidate.rank advisor.thresholds advisor.lexicon query) }
  | clear {advisor : Advisor} (before : Reachable lexicon thresholds advisor) :
      Reachable lexicon thresholds advisor.clear

structure Follows (advisor : Advisor) (lexicon : Lexicon) (thresholds : Thresholds) : Prop where
  lexicon_eq : advisor.lexicon = lexicon
  thresholds_eq : advisor.thresholds = thresholds
  memory : advisor.memo.Faithful (Candidate.rank thresholds lexicon)

section Steps

variable {advisor : Advisor} {lexicon : Lexicon} {thresholds : Thresholds}

theorem Follows.consult (h : advisor.Follows lexicon thresholds) (query : Query) :
    (advisor.consult query).2.Follows lexicon thresholds := by
  unfold Advisor.consult
  rw [h.lexicon_eq, h.thresholds_eq]
  split
  · exact h
  · exact ⟨rfl, rfl, (h.memory.ask query).2⟩

theorem Follows.consult_eq_rank (h : advisor.Follows lexicon thresholds) {query : Query}
    (asks : query.word ≠ "") (wants : 1 ≤ query.limit) :
    (advisor.consult query).1 = Candidate.rank thresholds lexicon query := by
  have hbusy : ¬ (query.word = "" ∨ query.limit = 0) := by
    simp only [not_or]
    exact ⟨asks, Nat.ne_of_gt wants⟩
  rw [Advisor.consult, if_neg hbusy, h.lexicon_eq, h.thresholds_eq]
  exact (h.memory.ask query).1

theorem Reachable.follows (h : advisor.Reachable lexicon thresholds) :
    advisor.Follows lexicon thresholds := by
  induction h with
  | fresh capacity positive =>
      refine ⟨rfl, rfl, ?_⟩
      intro entry hentry
      cases hentry
  | consult before query ih => exact ih.consult query
  | look before asks wants ih =>
      exact ⟨ih.lexicon_eq, ih.thresholds_eq, (ih.memory.look _).2⟩
  | put before asks wants ih =>
      refine ⟨ih.lexicon_eq, ih.thresholds_eq, ?_⟩
      rw [ih.thresholds_eq, ih.lexicon_eq]
      exact ih.memory.put _
  | clear before ih => exact ⟨ih.lexicon_eq, ih.thresholds_eq, Memo.Faithful.clear⟩

end Steps

/-- An advisor for two words, of which one begins like "FIR" and one sounds like it. It has been
asked before. -/
def asked : Advisor :=
  ((fresh Proofreader.fire.lexicon {} 1 (by decide)).consult ⟨"fhir", .function, 1⟩).2

end Advisor

end Respell
