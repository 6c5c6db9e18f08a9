import Respell.Proofs.Candidate.Selection

/-! # Suggestions by sound alone -/

namespace Respell

/-- What words that sound alike gain in confidence, as long as no cap stands in the way. -/
def soundRaise (a b : String) : Nat :=
  Bonus.sound.points + if sharesLead a b then Bonus.lead.points else 0

theorem floor_le_confidence_iff {word other : String} (heard : Sound.form other = Sound.form word)
    {floor : Nat} (below : floor ≤ Bonus.sound.cap) :
    floor ≤ confidence word other ↔
      Text.lower word = Text.lower other ∨
        floor ≤ percent (Text.lower word) (Text.lower other) +
          soundRaise (Text.lower word) (Text.lower other) := by
  have halike : Sound.alike word other = true := by simp [Sound.alike, heard]
  by_cases hsame : Text.lower word = Text.lower other
  · have hfull : confidence word other = 100 := by
      simp only [confidence, hsame, if_true]
    rw [hfull]
    exact iff_of_true (below.trans (by decide)) (Or.inl hsame)
  · simp only [Bonus.sound] at below
    simp only [confidence, hsame, if_false, halike, if_true, false_or, soundRaise, Bonus.apply,
      Bonus.sound, Bonus.lead]
    by_cases hlead : sharesLead (Text.lower word) (Text.lower other) = true
    · simp only [if_pos hlead]
      omega
    · simp only [if_neg hlead]
      omega

namespace Candidate

variable {thresholds : Thresholds} {lexicon : Lexicon} {query : Query} {candidate : Candidate}

theorem evidence_of_found (h : candidate ∈ found thresholds lexicon query) :
    candidate.evidence = .spelling ∧
        thresholds.cutoff ≤ Likeness.score query.word candidate.word ∨
      candidate.evidence = .sound ∧ Sound.form candidate.word = Sound.form query.word := by
  rcases List.mem_append.mp h with hclose | hheard
  · obtain ⟨word, hword, rfl⟩ := List.mem_map.mp hclose
    exact Or.inl ⟨rfl, cutoff_le_of_mem_bySpelling hword⟩
  · obtain ⟨word, hword, rfl⟩ := List.mem_map.mp hheard
    have halike := (List.mem_filter.mp hword).2
    simp only [Sound.alike, Bool.and_eq_true, beq_iff_eq] at halike
    exact Or.inr ⟨rfl, halike.2⟩

theorem length_found_le :
    (found thresholds lexicon query).length ≤ 2 * (lexicon.pool query.role).length := by
  obtain ⟨close, hclose, order, hperm, hfound⟩ :=
    bySpelling_subperm thresholds.cutoff (lexicon.pool query.role) query.word query.limit
  have hspelling := hfound.length_le
  rw [hperm.length_eq] at hspelling
  have hpool := hclose.length_le
  have hsound : (bySound (lexicon.pool query.role)
      (bySpelling thresholds.cutoff (lexicon.pool query.role) query.word query.limit)
      query.word).length ≤ (lexicon.pool query.role).length := List.length_filter_le _ _
  simp only [found, List.length_append, List.length_map]
  omega

theorem mem_rank_of_room {evidence : Evidence} {word : String}
    (hfound : ofWord query.word evidence word ∈ found thresholds lexicon query)
    (hfloor : thresholds.minConfidence ≤ Respell.confidence query.word word)
    (room : 2 * (lexicon.pool query.role).length ≤ query.limit) :
    ofWord query.word evidence word ∈ rank thresholds lexicon query := by
  have hshort : (ordered thresholds lexicon query).length ≤ query.limit := by
    rw [ordered, List.length_mergeSort]
    exact ((List.length_filter_le _ _).trans length_found_le).trans room
  rw [rank_eq_take, List.take_of_length_le hshort, ordered, List.mem_mergeSort, List.mem_filter]
  exact ⟨hfound, by simpa using hfloor⟩

end Candidate

namespace Advisor

theorem mem_rank_of_consult {lexicon : Lexicon} {thresholds : Thresholds} {advisor : Advisor}
    (reached : advisor.Reachable lexicon thresholds) {query : Query} {candidate : Candidate}
    (h : candidate ∈ (advisor.consult query).1) :
    candidate ∈ Candidate.rank thresholds lexicon query := by
  by_cases hidle : query.word = "" ∨ query.limit = 0
  · rw [consult, if_pos hidle] at h
    cases h
  · obtain ⟨hasks, hwants⟩ := not_or.mp hidle
    rwa [reached.follows.consult_eq_rank hasks (Nat.one_le_iff_ne_zero.mpr hwants)] at h

/-- With so many suggestions that there is room for all candidates, a word that sounds like the one
in question is suggested if it deserves enough confidence. -/
theorem exists_suggestion {lexicon : Lexicon} {thresholds : Thresholds} {advisor : Advisor}
    (reached : advisor.Reachable lexicon thresholds) {word other : String} (asks : word ≠ "")
    {role : Role} (hpool : other ∈ lexicon.pool role) (hform : Sound.form other = Sound.form word)
    (hfloor : thresholds.minConfidence ≤ confidence word other) {limit : Nat}
    (room : 2 * (lexicon.pool role).length < limit) :
    ∃ candidate ∈ (advisor.consult ⟨word, role, limit⟩).1, candidate.word = other := by
  let query : Query := ⟨word, role, limit⟩
  obtain ⟨evidence, hfound⟩ : ∃ evidence,
      Candidate.ofWord word evidence other ∈ Candidate.found thresholds lexicon query :=
    Candidate.exists_found hpool (Or.inr hform)
  have hranked := Candidate.mem_rank_of_room hfound hfloor (Nat.le_of_lt room)
  rw [← reached.follows.consult_eq_rank asks (Nat.one_le_of_lt room)] at hranked
  exact ⟨_, hranked, rfl⟩

/-- A word below the cutoff is only ever suggested by its sound. With enough suggestions it is one
of them exactly if it is in the pool, sounds like the word, and differs from it by case at most or
is raised to the floor. -/
theorem consult_below_cutoff {lexicon : Lexicon} {thresholds : Thresholds} {advisor : Advisor}
    (reached : advisor.Reachable lexicon thresholds) (floor : thresholds.minConfidence ≤ 95)
    {word : String} (asks : word ≠ "") (role : Role) {other : String}
    (below : ¬ thresholds.cutoff ≤ Likeness.score word other) :
    let a := Text.lower word
    let b := Text.lower other
    (∀ limit, ∀ candidate ∈ (advisor.consult ⟨word, role, limit⟩).1,
      candidate.word = other → candidate.evidence = .sound) ∧
    ((∃ limit, ∃ candidate ∈ (advisor.consult ⟨word, role, limit⟩).1, candidate.word = other) ↔
      other ∈ lexicon.pool role ∧ Sound.form other = Sound.form word ∧
        (a = b ∨ thresholds.minConfidence ≤ percent a b + soundRaise a b)) := by
  have hheard : ∀ {limit} {candidate : Candidate},
      candidate ∈ Candidate.found thresholds lexicon ⟨word, role, limit⟩ →
      candidate.word = other →
      candidate.evidence = .sound ∧ Sound.form other = Sound.form word := by
    rintro limit candidate hfound rfl
    apply (Candidate.evidence_of_found hfound).resolve_left
    rintro ⟨-, hreaches⟩
    exact below hreaches
  refine ⟨?_, ?_, ?_⟩
  · intro limit candidate hcandidate hword
    obtain ⟨hfound, -⟩ := Candidate.mem_found_of_rank (mem_rank_of_consult reached hcandidate)
    exact (hheard hfound hword).1
  · rintro ⟨limit, candidate, hcandidate, hword⟩
    obtain ⟨hfound, hkept⟩ := Candidate.mem_found_of_rank (mem_rank_of_consult reached hcandidate)
    have hform := (hheard hfound hword).2
    have hpool := Candidate.word_mem_pool_of_found hfound
    rw [Candidate.confidence_of_found hfound, hword] at hkept
    rw [hword] at hpool
    exact ⟨hpool, hform, (floor_le_confidence_iff hform floor).mp hkept⟩
  · rintro ⟨hpool, hform, hraised⟩
    have hfloor := (floor_le_confidence_iff hform floor).mpr hraised
    exact ⟨_, exists_suggestion reached asks hpool hform hfloor (Nat.lt_succ_self _)⟩

theorem vapas_mem_pool : "vapas" ∈ Lexicon.standard.pool .keyword := by
  obtain ⟨hrecords, -, -⟩ := Lexicon.records_of_build Lexicon.build_standard
  apply (hrecords.mem_pool_iff (by decide)).mpr
  exact ⟨.keyword, hrecords.mem_classes.mpr (by decide), rfl⟩

theorem scores_vapas :
    ¬ (0.5 : Float) ≤ Likeness.score "waPAS" "vapas" ∧ Sound.form "vapas" = Sound.form "waPAS" ∧
      60 ≤ confidence "waPAS" "vapas" := by
  decide +kernel

theorem consult_below_cutoff_vapas :
    let advisor := fresh Lexicon.standard {} 1024 (by decide)
    ¬ (0.5 : Float) ≤ Likeness.score "waPAS" "vapas" ∧
    ∃ limit, ∃ candidate ∈ (advisor.consult ⟨"waPAS", .keyword, limit⟩).1,
      candidate.word = "vapas" := by
  intro advisor
  have hreached : advisor.Reachable Lexicon.standard {} := Reachable.fresh 1024 (by decide)
  have hfloor : (60 : Nat) ≤ 95 := by decide
  obtain ⟨hbelow, hform, hconfidence⟩ := scores_vapas
  have hraised := (floor_le_confidence_iff hform hfloor).mp hconfidence
  obtain ⟨-, hsuggested⟩ :=
    consult_below_cutoff hreached hfloor (show "waPAS" ≠ "" by decide) .keyword hbelow
  exact ⟨hbelow, hsuggested.mpr ⟨vapas_mem_pool, hform, hraised⟩⟩

/-- By the standard thresholds a standard keyword is suggested for its sound that does not reach
the cutoff. -/
theorem vapas_below_cutoff :
    let advisor := fresh Lexicon.standard {} 1024 (by decide)
    ¬ ∀ candidate ∈ (advisor.consult ⟨"waPAS", .keyword, 1000⟩).1,
      (0.5 : Float) ≤ Likeness.score "waPAS" candidate.word := by
  intro advisor hclaim
  have hreached : advisor.Reachable Lexicon.standard {} := Reachable.fresh 1024 (by decide)
  obtain ⟨hbelow, hform, hconfidence⟩ := scores_vapas
  obtain ⟨hrecords, -, -⟩ := Lexicon.records_of_build Lexicon.build_standard
  have hroom : 2 * (Lexicon.standard.pool .keyword).length < 1000 := by
    have hlength := hrecords.length_pool_le .keyword
    have hentries : Lexicon.Draft.standard.words.length = 118 := by
      simp only [Lexicon.Draft.standard, Lexicon.Draft.addReserved, Lexicon.Draft.addWords,
        List.length_append, List.length_map]
      rfl
    omega
  obtain ⟨candidate, hmem, hword⟩ := exists_suggestion hreached (show "waPAS" ≠ "" by decide)
    vapas_mem_pool hform hconfidence hroom
  have hreaches := hclaim candidate hmem
  rw [hword] at hreaches
  exact hbelow hreaches

end Advisor

end Respell
