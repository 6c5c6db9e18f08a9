import Respell.Proofs.Candidate.Ranking
import Respell.Proofs.Lexicon.Pools
import Respell.Proofs.Proofreader.Exactness
import Respell.Proofs.Site.Respelling

namespace Respell

theorem Rules.mem_pool_of_suggestion? {rules : Rules} {word suggestion : String} {role : Role}
    (h : rules.suggestion? word role = some suggestion) :
    suggestion ∈ rules.lexicon.pool role := by
  obtain ⟨candidate, hcandidate, rfl⟩ := Option.map_eq_some_iff.mp h
  have hmem := List.mem_of_head? hcandidate
  unfold candidates at hmem
  split at hmem
  · simp at hmem
  · exact Candidate.mem_pool_of_mem_rank hmem

namespace Proofreader

theorem Follows.mem_pool_of_accepted? {proofreader : Proofreader} {rules : Rules}
    (h : proofreader.Follows rules) {site : Site} {word : String}
    (haccepted : proofreader.accepted? site = some word) :
    word ∈ proofreader.lexicon.pool site.role := by
  rw [h.accepted? site] at haccepted
  split at haccepted
  · rw [h.lexicon]
    exact Rules.mem_pool_of_suggestion? haccepted
  · simp at haccepted

theorem accepted?_of_exempts {proofreader : Proofreader} {site : Site}
    (h : proofreader.lexicon.exempts site.word = true) : proofreader.accepted? site = none := by
  simp [accepted?, h]

theorem accepted?_eq_of_outline {proofreader : Proofreader} {site site' : Site}
    (h : site.outline = site'.outline) :
    proofreader.accepted? site = proofreader.accepted? site' := by
  obtain ⟨hrole, hword⟩ := Prod.mk.inj h
  unfold accepted? Site.isCall
  rw [hrole, hword]

theorem rewrites_eq_filterMap_calls (proofreader : Proofreader) (text : String) :
    proofreader.rewrites text =
      (Site.calls text).filterMap fun site =>
        (proofreader.accepted? site).map (Edit.mk site) := by
  rw [Site.calls, Site.callsFrom, List.filterMap_filter]
  unfold rewrites
  congr 1
  funext site
  cases hcall : site.isCall with
  | false => simp [accepted?, hcall]
  | true => simp

theorem exists_call_of_rewrites {proofreader : Proofreader} {text : String} {edit : Edit}
    (hedit : edit ∈ proofreader.rewrites text) :
    ∃ (x : List Char) (call : Call) (y : List Char), text.toList = x ++ call.chars ++ y ∧
      (Quotes.passing {} [] x).closed = true ∧ edit.site = call.site (Text.width x) := by
  rw [rewrites_eq_filterMap_calls] at hedit
  obtain ⟨site, hsite, hedit⟩ := List.mem_filterMap.mp hedit
  obtain ⟨word, -, rfl⟩ := Option.map_eq_some_iff.mp hedit
  obtain ⟨front, back, hsplit⟩ := List.append_of_mem hsite
  obtain ⟨x, call, y, htext, -, hclosed, rfl, -⟩ := Site.exists_call_of_calls hsplit
  exact ⟨x, call, y, htext, hclosed, rfl⟩

/-- The word that stands at a call once the text is revised. -/
def wordAfter (proofreader : Proofreader) (text : String) (site : Site) : String :=
  if proofreader.defers text then site.word else (proofreader.accepted? site).getD site.word

theorem revise_of_defers {proofreader : Proofreader} {text : String}
    (h : proofreader.defers text = true) : proofreader.revise text = ({ text }, proofreader) := by
  rw [revise, if_pos h]

section Revised

variable {proofreader : Proofreader} {rules : Rules} (h : proofreader.Follows rules)
  {entries : List (String × WordClass)} (hwords : proofreader.lexicon.WordsFrom entries)
  (hnames : ∀ word ∈ proofreader.lexicon.words, isName word.toList = true)

include h hwords hnames

theorem Follows.isName_of_accepted? (site : Site) (word : String)
    (haccepted : proofreader.accepted? site = some word) : isName word.toList = true :=
  hnames word (hwords.listed _ word (h.mem_pool_of_accepted? haccepted))

/-- The calls and the literals of a revised text. -/
theorem Follows.calls_revise (text : String) :
    (Site.calls (proofreader.revise text).1.text).map Site.outline =
        (Site.calls text).map (fun site => (site.role, proofreader.wordAfter text site)) ∧
      Quotes.literals (proofreader.revise text).1.text = Quotes.literals text := by
  cases hdefers : proofreader.defers text with
  | true =>
      rw [revise_of_defers hdefers]
      refine ⟨?_, rfl⟩
      simp only [wordAfter, hdefers, if_true]
      rfl
  | false =>
      obtain ⟨text', hsplice, hcalls, hliterals⟩ :=
        Site.foldlM_splice?_calls (h.isName_of_accepted? hwords hnames)
          (show Site.callsFrom [] 0 {} text.toList = Site.calls text ++ [] by
            rw [List.append_nil]; rfl)
      rw [← rewrites_eq_filterMap_calls, h.rewrites] at hsplice
      have hwoven := Edit.foldlM_splice?_sites (rules.map_site_edits_sublist (Site.scan text))
      have htext : (proofreader.revise text).1.text.toList = text' := by
        rw [h.revise_eq_weave hdefers, h.rewrites, String.toList_ofList]
        exact Option.some.inj (hwoven.symm.trans hsplice)
      simp only [Site.calls, Quotes.literals, wordAfter, hdefers, htext] at hcalls ⊢
      exact ⟨by simpa using hcalls, hliterals⟩

/-- In a revised text there is no call left to respell. -/
theorem Follows.rewrites_revise {text : String} (hdefers : proofreader.defers text = false) :
    proofreader.rewrites (proofreader.revise text).1.text = [] := by
  rw [rewrites_eq_filterMap_calls, List.filterMap_eq_nil_iff]
  intro site hsite
  obtain ⟨old, -, hold⟩ : ∃ old ∈ Site.calls text,
      (old.role, proofreader.wordAfter text old) = site.outline := by
    rw [← List.mem_map, ← (h.calls_revise hwords hnames text).1]
    exact List.mem_map_of_mem hsite
  simp only [wordAfter, hdefers, Bool.false_eq_true, if_false] at hold
  have hnone : proofreader.accepted? site = none := by
    cases haccepted : proofreader.accepted? old with
    | none =>
        rw [haccepted, Option.getD_none] at hold
        rw [← accepted?_eq_of_outline (show old.outline = site.outline from hold), haccepted]
    | some word =>
        rw [haccepted, Option.getD_some] at hold
        obtain ⟨-, rfl⟩ := Prod.mk.inj hold
        exact accepted?_of_exempts (hwords.exempts (h.mem_pool_of_accepted? haccepted))
  rw [hnone, Option.map_none]

end Revised

theorem lexicon_withLexicon (lexicon : Lexicon) (settings : Settings)
    (environment : Option String) :
    (withLexicon lexicon settings environment).lexicon = lexicon := rfl

theorem Reachable.wordsFrom {proofreader : Proofreader} (reached : proofreader.Reachable) :
    ∃ rules entries, proofreader.Follows rules ∧ proofreader.lexicon.WordsFrom entries := by
  obtain ⟨rules, draft, h, hbuilt⟩ := reached.follows
  refine ⟨rules, draft.words, h, ?_⟩
  rw [h.lexicon]
  exact Lexicon.wordsFrom_of_build hbuilt

theorem Follows.revise_of_rewrites_nil {proofreader : Proofreader} {rules : Rules}
    (h : proofreader.Follows rules) {text : String} (hnil : proofreader.rewrites text = []) :
    (proofreader.revise text).1 = { text } := by
  cases hdefers : proofreader.defers text with
  | true => rw [revise_of_defers hdefers]
  | false =>
      rw [h.revise_eq_weave hdefers, hnil, Edit.weave_past (by simp), String.ofList_toList]
      rfl

/-- A text is as it was once it is revised if and only if no change is reported. -/
theorem Reachable.text_revise_eq_iff {proofreader : Proofreader} (reached : proofreader.Reachable)
    (names : ∀ word ∈ proofreader.lexicon.words, isName word.toList = true) (text : String) :
    (proofreader.revise text).1.text = text ↔ (proofreader.revise text).1.changes = [] := by
  obtain ⟨rules, entries, h, hwords⟩ := reached.wordsFrom
  cases hdefers : proofreader.defers text with
  | true => simp only [revise_of_defers hdefers]
  | false =>
      constructor
      · intro hsame
        -- a revised text has no call left to respell, so this one has none
        have hnil := h.rewrites_revise hwords names hdefers
        rw [hsame] at hnil
        rw [h.revise_of_rewrites_nil hnil]
      · intro hnone
        have hnil : proofreader.rewrites text = [] := by
          rw [h.revise_eq_weave hdefers] at hnone
          cases hrewrites : proofreader.rewrites text with
          | nil => rfl
          | cons edit edits => simp [hrewrites, Edit.firstOfEach] at hnone
        rw [h.revise_of_rewrites_nil hnil]

/-- The calls of a revised text are those of the text, one by one and each in its role: with the
accepted word where there is one, with their own word elsewhere. The literals are the same. -/
theorem revise_calls {proofreader : Proofreader} (reached : proofreader.Reachable)
    (names : ∀ word ∈ proofreader.lexicon.words, isName word.toList = true) (text : String) :
    (Site.calls (proofreader.revise text).1.text).map Site.outline =
        (Site.calls text).map (fun site => (site.role, proofreader.wordAfter text site)) ∧
      Quotes.literals (proofreader.revise text).1.text = Quotes.literals text := by
  obtain ⟨rules, entries, h, hwords⟩ := reached.wordsFrom
  exact h.calls_revise hwords names text

theorem revise_calls_brief :
    (∀ word ∈ brief.lexicon.words, isName word.toList = true) ∧
      (Site.calls (brief.revise "x = likoh (a . puhs (b), \"likoh (\")").1.text).map
        Site.outline = [(.function, "likho"), (.method, "push")] := by
  have hnames : ∀ word ∈ brief.lexicon.words, isName word.toList = true := by decide
  have hcalls := revise_calls reachable_brief hnames "x = likoh (a . puhs (b), \"likoh (\")"
  exact ⟨hnames, hcalls.1.trans (by decide +kernel)⟩

/-- To revise a revised text changes nothing. -/
theorem revise_idempotent {proofreader : Proofreader} (reached : proofreader.Reachable)
    (names : ∀ word ∈ proofreader.lexicon.words, isName word.toList = true) (text : String) :
    ((proofreader.revise text).2.revise (proofreader.revise text).1.text).1 =
      { text := (proofreader.revise text).1.text, changes := [] } := by
  obtain ⟨rules, entries, h, hwords⟩ := reached.wordsFrom
  cases hdefers : proofreader.defers text with
  | true => simp only [revise_of_defers hdefers]
  | false =>
      have hnext := (h.revise text).2
      apply hnext.revise_of_rewrites_nil
      rw [hnext.rewrites, ← h.rewrites]
      exact h.rewrites_revise hwords names hdefers

theorem revise_idempotent_standard :
    (∀ word ∈ (standard none).lexicon.words, isName word.toList = true) ∧
      (((standard none).revise "likoh (a . puhs (b))").2.revise
        ((standard none).revise "likoh (a . puhs (b))").1.text).1 =
        { text := ((standard none).revise "likoh (a . puhs (b))").1.text, changes := [] } := by
  have hreached : (standard none).Reachable := Reachable.start Lexicon.build_standard {} none
  have hnames : ∀ word ∈ (standard none).lexicon.words, isName word.toList = true := by
    rw [standard, lexicon_withLexicon]
    exact Lexicon.isName_standard
  exact ⟨hnames, revise_idempotent hreached hnames "likoh (a . puhs (b))"⟩

end Proofreader

end Respell
