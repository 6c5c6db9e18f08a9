import Respell.Proofs.Candidate.Ranking
import Respell.Proofs.Lexicon.Pools
import Respell.Proofs.Proofreader.Memory

namespace Respell

namespace Rules

variable {rules : Rules} {query : Query}

theorem candidates_of_exempts (h : rules.lexicon.exempts query.word = true) :
    rules.candidates query = [] :=
  candidates_of_not_isOpen (Query.not_isOpen_iff.mpr (Or.inl h))

theorem candidates_cases (rules : Rules) (query : Query) :
    rules.candidates query = [] ∨
      rules.lexicon.exempts query.word = false ∧
        rules.candidates query =
          Candidate.rank rules.settings.thresholds rules.lexicon query := by
  by_cases isOpen : query.IsOpen rules.lexicon
  · exact Or.inr ⟨isOpen.1, candidates_of_isOpen isOpen⟩
  · exact Or.inl (candidates_of_not_isOpen isOpen)

theorem length_candidates_le : (rules.candidates query).length ≤ query.limit := by
  rcases rules.candidates_cases query with hnone | ⟨-, hrank⟩
  · rw [hnone]
    exact Nat.zero_le _
  · rw [hrank]
    exact Candidate.length_rank_le _ _ _

theorem nodup_candidates (hpool : (rules.lexicon.pool query.role).Nodup) :
    ((rules.candidates query).map Candidate.word).Nodup := by
  rcases rules.candidates_cases query with hnone | ⟨-, hrank⟩
  · rw [hnone]
    exact List.nodup_nil
  · rw [hrank]
    exact Candidate.nodup_rank hpool

theorem pairwise_candidates :
    (rules.candidates query).Pairwise fun better worse =>
      worse.confidence ≤ better.confidence := by
  rcases rules.candidates_cases query with hnone | ⟨-, hrank⟩
  · rw [hnone]
    exact List.Pairwise.nil
  · rw [hrank]
    exact Candidate.pairwise_rank _ _ _

/-- Where a candidate comes from, and what its confidence is. -/
theorem mem_candidates {candidate : Candidate} (h : candidate ∈ rules.candidates query) :
    rules.lexicon.exempts query.word = false ∧ candidate.word ∈ rules.lexicon.pool query.role ∧
      candidate.confidence = confidence query.word candidate.word ∧
      rules.settings.thresholds.minConfidence ≤ candidate.confidence := by
  rcases rules.candidates_cases query with hnone | ⟨hexempts, hrank⟩
  · rw [hnone] at h
    cases h
  · rw [hrank] at h
    obtain ⟨hfound, hfloor⟩ := Candidate.mem_found_of_rank h
    exact ⟨hexempts, Candidate.word_mem_pool_of_found hfound,
      Candidate.confidence_of_found hfound, hfloor⟩

end Rules

namespace Proofreader

/-- At most as many suggestions as are wanted, with different words and the best first. Each one
has the confidence that its word deserves, which is neither below the floor nor above 100; the word
is in the pool of the role, is not reserved, and differs from the given one by more than case. A
word that is reserved, or that differs from a known word by case at most, has no suggestions. -/
theorem candidates_sound {proofreader : Proofreader} (reached : proofreader.Reachable)
    (query : Query) :
    let lexicon := proofreader.lexicon
    let suggestions := (proofreader.candidates query).1
    suggestions.length ≤ query.limit ∧
    (suggestions.map Candidate.word).Nodup ∧
    suggestions.Pairwise (fun better worse => worse.confidence ≤ better.confidence) ∧
    (∀ candidate ∈ suggestions,
      candidate.confidence = confidence query.word candidate.word ∧
      proofreader.settings.thresholds.minConfidence ≤ candidate.confidence ∧
      candidate.confidence ≤ 100 ∧
      candidate.word ∈ lexicon.pool query.role ∧
      lexicon.isReserved candidate.word = false ∧
      Text.lower candidate.word ≠ Text.lower query.word) ∧
    (lexicon.isReserved query.word = true ∨
        (∃ known ∈ lexicon.pool .general, Text.lower known = Text.lower query.word) →
      suggestions = []) := by
  obtain ⟨rules, draft, h, hbuilt⟩ := reached.follows
  obtain ⟨hrecords, -, -⟩ := Lexicon.records_of_build hbuilt
  intro lexicon suggestions
  have hlexicon : lexicon = rules.lexicon := h.lexicon
  have hsuggestions : suggestions = rules.candidates query := (h.candidates query).1
  rw [hsuggestions, hlexicon, h.settings]
  refine ⟨Rules.length_candidates_le, Rules.nodup_candidates (hrecords.nodup_pool query.role),
    Rules.pairwise_candidates, ?_, ?_⟩
  · intro candidate hcandidate
    obtain ⟨hexempts, hpool, hconfidence, hfloor⟩ := Rules.mem_candidates hcandidate
    refine ⟨hconfidence, hfloor, ?_, hpool, Lexicon.isReserved_of_mem_pool hbuilt hpool, ?_⟩
    · rw [hconfidence]
      exact confidence_le_hundred _ _
    · intro hsame
      -- a word of the pool with the same lower-case form would make the word exempt
      have hexempt := hrecords.exempts_iff.mpr
        (Or.inr ⟨candidate.word, hrecords.pool_subset_words query.role hpool, hsame⟩)
      rw [hexempts] at hexempt
      cases hexempt
  · intro hknown
    exact Rules.candidates_of_exempts (hrecords.exempts_iff.mpr hknown)

/-- The rules of a lexicon with two words, of which one sounds like "FIR" and one begins like it. -/
def fire : Rules where
  lexicon :=
    { tags := [("phir", .builtin), ("FIRE", .builtin)]
      words := ["phir", "FIRE"]
      builtins := ["phir", "FIRE"]
      folded := ["phir", "fire"]
      reserved := ["firr"] }
  settings := {}

def asked : Proofreader :=
  ((withLexicon fire.lexicon fire.settings none).perform (.suggest "fhir" .function)).2

theorem reachable_asked : asked.Reachable := by
  let draft : Lexicon.Draft :=
    { words := [("phir", .builtin), ("FIRE", .builtin)], reserved := ["firr"] }
  exact (Reachable.start (show draft.build = .ok fire.lexicon from rfl) fire.settings none).next _

theorem candidates_asked :
    (asked.candidates ⟨"FIR", .function, 2⟩).1 =
      [⟨"FIRE", 96, .spelling⟩, ⟨"phir", 72, .sound⟩] := by
  have hfollows : asked.Follows fire := ((follows_withLexicon fire.lexicon {} none).perform _).2
  have hkept : (Candidate.found fire.settings.thresholds fire.lexicon ⟨"FIR", .function, 2⟩).filter
      (fun candidate => fire.settings.thresholds.minConfidence ≤ candidate.confidence) =
        [⟨"FIRE", 96, .spelling⟩, ⟨"phir", 72, .sound⟩] := by
    decide +kernel
  rw [(hfollows.candidates _).1, Rules.candidates, if_neg (by decide +kernel),
    Candidate.rank_of_pairwise hkept (by decide)]
  rfl

theorem candidates_sound_asked :
    asked.Reachable ∧ ⟨"phir", 72, .sound⟩ ∈ (asked.candidates ⟨"FIR", .function, 2⟩).1 ∧
      asked.lexicon.isReserved "phir" = false ∧ Text.lower "phir" ≠ Text.lower "FIR" := by
  have hmem : ⟨"phir", 72, .sound⟩ ∈ (asked.candidates ⟨"FIR", .function, 2⟩).1 := by
    rw [candidates_asked]
    decide
  obtain ⟨-, -, -, heach, -⟩ := candidates_sound reachable_asked ⟨"FIR", .function, 2⟩
  obtain ⟨-, -, -, -, hfree, hlower⟩ := heach _ hmem
  exact ⟨reachable_asked, hmem, hfree, hlower⟩

end Proofreader

end Respell
