import Respell.Proofs.Candidate.Selection

/-! # The first suggestion -/

namespace Respell

namespace Candidate

variable {thresholds : Thresholds} {lexicon : Lexicon} {query : Query} {word : String}

theorem mem_bySpelling_of_room {pool : List String} {cutoff : Float} {limit : Nat}
    (room : (pool.filter fun other => cutoff ≤ Likeness.score word other).length ≤
      spellingLimit limit) {other : String} (hother : other ∈ pool)
    (hreaches : cutoff ≤ Likeness.score word other) :
    other ∈ bySpelling cutoff pool word limit := by
  rw [bySpelling_eq_take, List.take_of_length_le (by rwa [List.length_mergeSort])]
  exact List.mem_mergeSort.mpr (List.mem_filter.mpr ⟨hother, decide_eq_true hreaches⟩)

/-- A word that is found and deserves enough confidence has no more than the best candidate. -/
theorem exists_best {evidence : Evidence} (wants : 1 ≤ query.limit)
    (hfound : ofWord query.word evidence word ∈ found thresholds lexicon query)
    (hfloor : thresholds.minConfidence ≤ Respell.confidence query.word word) :
    ∃ best others, rank thresholds lexicon query = best :: others ∧
      Respell.confidence query.word word ≤ best.confidence := by
  have hkept : ofWord query.word evidence word ∈ (found thresholds lexicon query).filter
      fun candidate => thresholds.minConfidence ≤ candidate.confidence := by
    rw [List.mem_filter]
    exact ⟨hfound, by simpa using hfloor⟩
  obtain ⟨best, others, hrank, hbest⟩ :=
    (foremost_rank thresholds lexicon query).exists_head wants hkept
  refine ⟨best, others, hrank, ?_⟩
  rw [← confidence_ofWord query.word evidence word]
  rcases hbest with rfl | hless | ⟨heq, -⟩
  · exact Nat.le_refl _
  · exact Nat.le_of_lt hless
  · exact Nat.le_of_eq heq

end Candidate

namespace Advisor

/-- Of the words that reach the cutoff, twice as many as are wanted are found by spelling, the most
alike ones first, and all of them if there are no more. If one of these words, or one that sounds
like the word, deserves enough confidence, there is a suggestion, and it does not deserve more than
the first one has. -/
theorem consult_best {lexicon : Lexicon} {thresholds : Thresholds} {advisor : Advisor}
    (reached : advisor.Reachable lexicon thresholds) {query : Query} (asks : query.word ≠ "")
    (wants : 1 ≤ query.limit) :
    let pool := lexicon.pool query.role
    let reaching := pool.filter fun word => thresholds.cutoff ≤ Likeness.score query.word word
    let room := min (2 * query.limit) (2 ^ 64 - 1)
    let close := Candidate.bySpelling thresholds.cutoff pool query.word query.limit
    Foremost (Ahead (Likeness.score query.word) pool) room reaching close ∧
    (reaching.length ≤ room → ∀ word ∈ reaching, word ∈ close) ∧
    ∀ word ∈ pool, thresholds.minConfidence ≤ confidence query.word word →
      word ∈ close ∨ Sound.form word = Sound.form query.word →
      ∃ best others, (advisor.consult query).1 = best :: others ∧
        confidence query.word word ≤ best.confidence := by
  intro pool reaching room close
  refine ⟨Candidate.foremost_bySpelling thresholds.cutoff pool query.word query.limit, ?_, ?_⟩
  · intro hroom word hword
    obtain ⟨hpool, hreaches⟩ := List.mem_filter.mp hword
    exact Candidate.mem_bySpelling_of_room hroom hpool (of_decide_eq_true hreaches)
  · intro word hpool hfloor hconsidered
    obtain ⟨evidence, hfound⟩ := Candidate.exists_found hpool hconsidered
    rw [reached.follows.consult_eq_rank asks wants]
    exact Candidate.exists_best wants hfound hfloor

/-- Two words of the length of "garden" with one letter changed, and one in which it is continued. -/
def garden : Lexicon where
  tags := [("warden", .builtin), ("harden", .builtin), ("gardeners", .builtin)]
  words := ["warden", "harden", "gardeners"]
  builtins := ["warden", "harden", "gardeners"]
  folded := ["warden", "harden", "gardeners"]

theorem scores_garden :
    garden.builtins.filter (fun word => (0.5 : Float) ≤ Likeness.score "garden" word) =
        garden.builtins ∧
      (garden.builtins.Pairwise fun x y =>
        Likeness.atLeast (Likeness.score "garden" x) (Likeness.score "garden" y) = true) ∧
      confidence "garden" "warden" = 83 ∧ confidence "garden" "harden" = 83 ∧
      confidence "garden" "gardeners" = 90 ∧
      Candidate.bySound garden.builtins ["warden", "harden"] "garden" = [] := by
  decide +kernel

theorem close_garden (limit : Nat) :
    Candidate.bySpelling 0.5 garden.builtins "garden" limit =
      garden.builtins.take (Candidate.spellingLimit limit) :=
  Candidate.bySpelling_of_pairwise scores_garden.1 scores_garden.2.1 limit

/-- With two suggestions there is room for all three words, and the best one is found. -/
theorem consult_best_garden :
    let advisor := fresh garden {} 1 (by decide)
    "gardeners" ∈ Candidate.bySpelling 0.5 garden.builtins "garden" 2 ∧
    ∃ best others, (advisor.consult ⟨"garden", .function, 2⟩).1 = best :: others ∧
      90 ≤ best.confidence := by
  intro advisor
  have hreached : advisor.Reachable garden {} := Reachable.fresh 1 (by decide)
  have hclose : "gardeners" ∈ Candidate.bySpelling 0.5 garden.builtins "garden" 2 := by
    rw [close_garden]
    decide
  obtain ⟨-, -, -, -, hconfidence, -⟩ := scores_garden
  obtain ⟨-, -, hbest⟩ := consult_best hreached
    (show (⟨"garden", .function, 2⟩ : Query).word ≠ "" by decide) (by decide)
  have hgardeners := hbest "gardeners" (by decide) (by rw [hconfidence]; decide) (Or.inl hclose)
  rw [hconfidence] at hgardeners
  exact ⟨hclose, hgardeners⟩

theorem rank_garden :
    Candidate.rank {} garden ⟨"garden", .function, 1⟩ = [⟨"warden", 83, .spelling⟩] := by
  obtain ⟨-, -, hwarden, hharden, -, hheard⟩ := scores_garden
  have hclose : Candidate.bySpelling 0.5 garden.builtins "garden" 1 = ["warden", "harden"] :=
    close_garden 1
  have hkept : (Candidate.found {} garden ⟨"garden", .function, 1⟩).filter
      (fun candidate => 60 ≤ candidate.confidence) =
        [⟨"warden", 83, .spelling⟩, ⟨"harden", 83, .spelling⟩] := by
    simp [Candidate.found, Lexicon.pool, hclose, hheard, Candidate.ofWord, hwarden, hharden]
  rw [Candidate.rank_of_pairwise hkept (by decide)]
  rfl

/-- With one suggestion there is no room for the third word, although it reaches the cutoff and
deserves the most confidence. -/
theorem gardeners_crowded_out :
    let advisor := fresh garden {} 1 (by decide)
    Lexicon.Draft.build { words := garden.tags } = .ok garden ∧
    ¬ ∀ word ∈ garden.pool .function, 60 ≤ confidence "garden" word →
      (0.5 : Float) ≤ Likeness.score "garden" word ∨ Sound.form word = Sound.form "garden" →
      ∃ best others, (advisor.consult ⟨"garden", .function, 1⟩).1 = best :: others ∧
        confidence "garden" word ≤ best.confidence := by
  intro advisor
  refine ⟨rfl, ?_⟩
  intro hclaim
  have hanswer : (advisor.consult ⟨"garden", .function, 1⟩).1 = [⟨"warden", 83, .spelling⟩] := by
    have hreached : advisor.Reachable garden {} := Reachable.fresh 1 (by decide)
    rw [hreached.follows.consult_eq_rank (by decide) (by decide), rank_garden]
  obtain ⟨hreaching, -, -, -, hconfidence, -⟩ := scores_garden
  have hreaches : (0.5 : Float) ≤ Likeness.score "garden" "gardeners" := by
    have hmem : "gardeners" ∈ garden.builtins := by decide
    rw [← hreaching] at hmem
    exact of_decide_eq_true (List.mem_filter.mp hmem).2
  obtain ⟨best, others, hbest, hle⟩ :=
    hclaim "gardeners" (by decide) (by rw [hconfidence]; decide) (Or.inl hreaches)
  rw [hanswer] at hbest
  cases hbest
  rw [hconfidence] at hle
  exact absurd hle (by decide)

end Advisor

end Respell
