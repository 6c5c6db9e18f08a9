import Respell.Candidate

namespace Respell

theorem confidence_le_hundred (word candidate : String) : confidence word candidate ≤ 100 := by
  by_cases hsame : Text.lower word = Text.lower candidate
  · simp only [confidence, if_pos hsame]
    exact Nat.le_refl 100
  · simp only [confidence, if_neg hsame]
    exact Nat.min_le_right _ 100

namespace Candidate

@[simp] theorem confidence_ofWord (target : String) (evidence : Evidence) (word : String) :
    (ofWord target evidence word).confidence = Respell.confidence target word := by
  rw [ofWord]

/-- All candidates for a query in the order in which they are found, whatever their confidence. -/
def found (thresholds : Thresholds) (lexicon : Lexicon) (query : Query) : List Candidate :=
  let pool := lexicon.pool query.role
  let close := bySpelling thresholds.cutoff pool query.word query.limit
  close.map (ofWord query.word .spelling) ++
    (bySound pool close query.word).map (ofWord query.word .sound)

def ordered (thresholds : Thresholds) (lexicon : Lexicon) (query : Query) : List Candidate :=
  ((found thresholds lexicon query).filter fun candidate =>
    thresholds.minConfidence ≤ candidate.confidence).mergeSort fun x y =>
      y.confidence ≤ x.confidence

theorem rank_eq_take (thresholds : Thresholds) (lexicon : Lexicon) (query : Query) :
    rank thresholds lexicon query = (ordered thresholds lexicon query).take query.limit := rfl

theorem rank_of_pairwise {thresholds : Thresholds} {lexicon : Lexicon} {query : Query}
    {kept : List Candidate}
    (hkept : (found thresholds lexicon query).filter
      (fun candidate => thresholds.minConfidence ≤ candidate.confidence) = kept)
    (horder : kept.Pairwise fun better worse => worse.confidence ≤ better.confidence) :
    rank thresholds lexicon query = kept.take query.limit := by
  rw [rank_eq_take, ordered, hkept, List.mergeSort_of_pairwise]
  exact horder.imp fun hle => decide_eq_true hle

/-- Words are found by spelling in another order than that of the pool, but each at most as often
as it is there. -/
theorem bySpelling_subperm (cutoff : Float) (pool : List String) (word : String) (limit : Nat) :
    ∃ close, close.Sublist pool ∧
      ∃ order, order.Perm close ∧ (bySpelling cutoff pool word limit).Sublist order := by
  let scored := pool.map fun candidate => (candidate, Likeness.score word candidate)
  let close := scored.filter fun entry => cutoff ≤ entry.2
  have hpool : scored.map Prod.fst = pool := by
    rw [List.map_map]
    exact List.map_id pool
  refine ⟨close.map Prod.fst, ?_, (close.mergeSort fun x y => Likeness.atLeast x.2 y.2).map Prod.fst,
    ?_, ?_⟩
  · conv => rhs; rw [← hpool]
    exact List.filter_sublist.map Prod.fst
  · exact (List.mergeSort_perm _ _).map Prod.fst
  · exact (List.take_sublist _ _).map Prod.fst

theorem bySpelling_subset (cutoff : Float) (pool : List String) (word : String) (limit : Nat) :
    bySpelling cutoff pool word limit ⊆ pool := by
  obtain ⟨close, hclose, order, hperm, hfound⟩ := bySpelling_subperm cutoff pool word limit
  intro candidate hcandidate
  exact hclose.subset (hperm.mem_iff.mp (hfound.subset hcandidate))

theorem nodup_bySpelling {pool : List String} (hpool : pool.Nodup) (cutoff : Float)
    (word : String) (limit : Nat) : (bySpelling cutoff pool word limit).Nodup := by
  obtain ⟨close, hclose, order, hperm, hfound⟩ := bySpelling_subperm cutoff pool word limit
  have horder : order.Nodup := hperm.nodup_iff.mpr (hpool.sublist hclose)
  exact horder.sublist hfound

section Found

variable {thresholds : Thresholds} {lexicon : Lexicon} {query : Query}

theorem map_word_found :
    (found thresholds lexicon query).map word =
      bySpelling thresholds.cutoff (lexicon.pool query.role) query.word query.limit ++
        bySound (lexicon.pool query.role)
          (bySpelling thresholds.cutoff (lexicon.pool query.role) query.word query.limit)
          query.word := by
  have hword : ∀ evidence, word ∘ ofWord query.word evidence = id := fun _ => rfl
  simp only [found, List.map_append, List.map_map, hword, List.map_id]

theorem nodup_found (hpool : (lexicon.pool query.role).Nodup) :
    ((found thresholds lexicon query).map word).Nodup := by
  rw [map_word_found, List.nodup_append]
  refine ⟨nodup_bySpelling hpool _ _ _, hpool.sublist List.filter_sublist, ?_⟩
  -- what was found by spelling is not looked for by sound
  rintro close hclose heard hheard rfl
  obtain ⟨-, hnew⟩ := List.mem_filter.mp hheard
  rw [List.contains_iff_mem.mpr hclose] at hnew
  cases hnew

theorem word_mem_pool_of_found {candidate : Candidate}
    (h : candidate ∈ found thresholds lexicon query) :
    candidate.word ∈ lexicon.pool query.role := by
  have hword : candidate.word ∈ (found thresholds lexicon query).map word := List.mem_map_of_mem h
  rw [map_word_found] at hword
  rcases List.mem_append.mp hword with hclose | hheard
  · exact bySpelling_subset _ _ _ _ hclose
  · exact (List.mem_filter.mp hheard).1

theorem confidence_of_found {candidate : Candidate}
    (h : candidate ∈ found thresholds lexicon query) :
    candidate.confidence = Respell.confidence query.word candidate.word := by
  rcases List.mem_append.mp h with hclose | hheard
  · obtain ⟨word, -, rfl⟩ := List.mem_map.mp hclose
    rfl
  · obtain ⟨word, -, rfl⟩ := List.mem_map.mp hheard
    rfl

theorem exists_found {word : String} (hpool : word ∈ lexicon.pool query.role)
    (h : word ∈ bySpelling thresholds.cutoff (lexicon.pool query.role) query.word query.limit ∨
      Sound.form word = Sound.form query.word) :
    ∃ evidence, ofWord query.word evidence word ∈ found thresholds lexicon query := by
  by_cases hclose :
      word ∈ bySpelling thresholds.cutoff (lexicon.pool query.role) query.word query.limit
  · exact ⟨.spelling, List.mem_append_left _ (List.mem_map_of_mem hclose)⟩
  · have hheard : word ∈ bySound (lexicon.pool query.role)
        (bySpelling thresholds.cutoff (lexicon.pool query.role) query.word query.limit)
        query.word := by
      apply List.mem_filter.mpr
      refine ⟨hpool, ?_⟩
      simp [Sound.alike, hclose, h.resolve_left hclose]
    exact ⟨.sound, List.mem_append_right _ (List.mem_map_of_mem hheard)⟩

theorem mem_found_of_rank {candidate : Candidate}
    (h : candidate ∈ rank thresholds lexicon query) :
    candidate ∈ found thresholds lexicon query ∧
      thresholds.minConfidence ≤ candidate.confidence := by
  obtain ⟨hfound, hfloor⟩ :=
    List.mem_filter.mp (List.mem_mergeSort.mp (List.mem_of_mem_take h))
  exact ⟨hfound, of_decide_eq_true hfloor⟩

theorem mem_pool_of_mem_rank {candidate : Candidate}
    (h : candidate ∈ rank thresholds lexicon query) :
    candidate.word ∈ lexicon.pool query.role :=
  word_mem_pool_of_found (mem_found_of_rank h).1

theorem nodup_rank (hpool : (lexicon.pool query.role).Nodup) :
    ((rank thresholds lexicon query).map word).Nodup := by
  have hordered : (ordered thresholds lexicon query).Perm
      ((found thresholds lexicon query).filter fun candidate =>
        thresholds.minConfidence ≤ candidate.confidence) := List.mergeSort_perm _ _
  have hkept : ((ordered thresholds lexicon query).map word).Nodup := by
    rw [(hordered.map word).nodup_iff]
    exact (nodup_found hpool).sublist (List.filter_sublist.map word)
  exact hkept.sublist ((List.take_sublist _ _).map word)

end Found

theorem pairwise_ordered (thresholds : Thresholds) (lexicon : Lexicon) (query : Query) :
    (ordered thresholds lexicon query).Pairwise fun better worse =>
      worse.confidence ≤ better.confidence := by
  have hsorted : (ordered thresholds lexicon query).Pairwise fun better worse =>
      decide (worse.confidence ≤ better.confidence) = true := by
    apply List.pairwise_mergeSort
    · intro x y z hxy hyz
      exact decide_eq_true (Nat.le_trans (of_decide_eq_true hyz) (of_decide_eq_true hxy))
    · intro x y
      rw [← Bool.decide_or]
      exact decide_eq_true (Nat.le_total y.confidence x.confidence)
  exact hsorted.imp fun hle => of_decide_eq_true hle

theorem pairwise_rank (thresholds : Thresholds) (lexicon : Lexicon) (query : Query) :
    (rank thresholds lexicon query).Pairwise fun better worse =>
      worse.confidence ≤ better.confidence :=
  (pairwise_ordered thresholds lexicon query).sublist (List.take_sublist _ _)

theorem length_rank_le (thresholds : Thresholds) (lexicon : Lexicon) (query : Query) :
    (rank thresholds lexicon query).length ≤ query.limit :=
  List.length_take_le query.limit _

end Candidate

end Respell
