import Respell.Proofs.Lexicon.Pools
import Respell.Proofs.Proofreader.Exactness

namespace Respell

namespace Memo

variable {κ ν : Type} [DecidableEq κ] {memo : Memo κ ν} {answer : κ → ν} {key : κ}

def lookups (memo : Memo κ ν) : Nat := memo.hits + memo.misses

theorem mem_entries_look {entry : κ × ν} (h : entry ∈ (memo.look key).2.entries) :
    entry.1 = key ∨ entry ∈ memo.entries := by
  rcases memo.look_cases key with ⟨value, -, hlook⟩ | ⟨-, hlook⟩
  · rw [hlook] at h
    exact (mem_inFront h).imp_left (congrArg Prod.fst)
  · rw [hlook] at h
    exact Or.inr h

theorem mem_entries_put {value : ν} {entry : κ × ν} (h : entry ∈ (memo.put key value).entries) :
    entry.1 = key ∨ entry ∈ memo.entries :=
  (mem_inFront (List.mem_of_mem_take h)).imp_left (congrArg Prod.fst)

theorem mem_entries_ask {entry : κ × ν} (h : entry ∈ (memo.ask answer key).2.entries) :
    entry.1 = key ∨ entry ∈ memo.entries := by
  rcases memo.ask_cases answer key with ⟨value, -, hask⟩ | ⟨-, hask⟩
  · rw [hask] at h
    exact mem_entries_look h
  · rw [hask] at h
    exact (mem_entries_put h).elim Or.inl mem_entries_look

theorem lookups_look (memo : Memo κ ν) (key : κ) :
    (memo.look key).2.lookups = memo.lookups + 1 := by
  rcases memo.look_cases key with ⟨value, -, hlook⟩ | ⟨-, hlook⟩
  · rw [hlook]
    exact Nat.add_right_comm memo.hits 1 memo.misses
  · rw [hlook]
    exact (Nat.add_assoc memo.hits memo.misses 1).symm

theorem lookups_put (memo : Memo κ ν) (key : κ) (value : ν) :
    (memo.put key value).lookups = memo.lookups :=
  rfl

theorem lookups_ask (memo : Memo κ ν) (answer : κ → ν) (key : κ) :
    (memo.ask answer key).2.lookups = memo.lookups + 1 := by
  rcases memo.ask_cases answer key with ⟨value, -, hask⟩ | ⟨-, hask⟩
  · rw [hask, lookups_look]
  · rw [hask, lookups_put, lookups_look]

end Memo

namespace Site

theorem word_of_mem_here {before rest : List Char} {offset : Nat} {site : Site}
    (h : site ∈ here before offset rest) :
    site.word = String.ofList (rest.takeWhile isWordChar) := by
  rcases List.mem_append.mp h with hkeyword | hcall
  · rw [Option.mem_toList, keyword?] at hkeyword
    split at hkeyword
    · rw [← Option.some.inj hkeyword]
    · cases hkeyword
  · rw [Option.mem_toList, call?] at hcall
    split at hcall
    · split at hcall
      · rw [← Option.some.inj hcall]
      · rw [← Option.some.inj hcall]
    · cases hcall

theorem word_ne_empty_of_scanFrom {before text : List Char} {offset : Nat} {quotes : Quotes}
    {site : Site} (h : site ∈ scanFrom before offset quotes text) : site.word ≠ "" := by
  induction text generalizing before offset quotes with
  | nil => cases h
  | cons c text ih =>
      rcases List.mem_append.mp h with hhere | hlater
      · split at hhere
        · rename_i hbegins
          simp only [beginsName, Bool.and_eq_true] at hbegins
          rw [word_of_mem_here hhere, List.takeWhile_cons_of_pos hbegins.1.1.1]
          intro hempty
          have hnil := congrArg String.toList hempty
          simp at hnil
        · cases hhere
      · exact ih hlater

end Site

namespace Proofreader

section Invariant

/-! What queries and clearing keep is kept by all that a proofreader can be asked for. -/

variable {Good : Proofreader → Prop}
  (hquery : ∀ proofreader query, Good proofreader → Good (proofreader.candidates query).2)

include hquery

theorem editsFor_keeps {proofreader : Proofreader} (h : Good proofreader) (sites : List Site) :
    Good (proofreader.editsFor sites).2 := by
  induction sites generalizing proofreader with
  | nil => exact h
  | cons site sites ih => exact ih (hquery _ _ h)

theorem revise_keeps {proofreader : Proofreader} (h : Good proofreader) (text : String) :
    Good (proofreader.revise text).2 := by
  unfold revise
  split
  · exact h
  · exact editsFor_keeps hquery h (Site.scan text)

theorem reviseAll_keeps {proofreader : Proofreader} (h : Good proofreader)
    (texts : List String) : Good (proofreader.reviseAll texts).2 := by
  induction texts generalizing proofreader with
  | nil => exact h
  | cons text texts ih => exact ih (revise_keeps hquery h text)

theorem perform_keeps (hclear : ∀ proofreader, Good proofreader → Good proofreader.clear)
    {proofreader : Proofreader} (h : Good proofreader) (request : Request) :
    Good (proofreader.perform request).2 := by
  cases request with
  | suggest word role => exact hquery _ _ h
  | candidates query => exact hquery _ _ h
  | revise text => exact revise_keeps hquery h text
  | reviseAll texts => exact reviseAll_keeps hquery h texts
  | clear => exact hclear _ h

end Invariant

/-- Only questions that needed an answer are remembered. -/
def Selective (proofreader : Proofreader) : Prop :=
  ∀ entry ∈ proofreader.advisor.memo.entries, entry.1.IsOpen proofreader.lexicon

theorem Selective.withMemo {proofreader : Proofreader} (h : proofreader.Selective) {query : Query}
    (isOpen : query.IsOpen proofreader.lexicon) {memo : Memo Query (List Candidate)}
    (hmemo : ∀ entry ∈ memo.entries,
      entry.1 = query ∨ entry ∈ proofreader.advisor.memo.entries) :
    (proofreader.withMemo memo).Selective := by
  intro entry hentry
  rcases hmemo entry hentry with hnew | hold
  · rw [hnew]
    exact isOpen
  · exact h entry hold

theorem Selective.candidates (proofreader : Proofreader) (query : Query)
    (h : proofreader.Selective) : (proofreader.candidates query).2.Selective := by
  by_cases isOpen : query.IsOpen proofreader.lexicon
  · rw [candidates_of_isOpen isOpen]
    exact h.withMemo isOpen fun entry => Memo.mem_entries_ask
  · rw [candidates_of_not_isOpen isOpen]
    exact h

theorem Reachable.selective {proofreader : Proofreader} (reached : proofreader.Reachable) :
    proofreader.Selective := by
  induction reached with
  | start built settings environment =>
      intro entry hentry
      cases hentry
  | next before request ih =>
      apply perform_keeps Selective.candidates _ ih
      intro proofreader _ entry hentry
      cases hentry
  | look before isOpen ih => exact ih.withMemo isOpen fun entry => Memo.mem_entries_look
  | put before isOpen ih => exact ih.withMemo isOpen fun entry => Memo.mem_entries_put

theorem candidates_of_exempts {proofreader : Proofreader} {query : Query}
    (h : proofreader.lexicon.exempts query.word = true) :
    proofreader.candidates query = ([], proofreader) :=
  candidates_of_not_isOpen (Query.not_isOpen_iff.mpr (Or.inl h))

theorem lookups_suggest {proofreader : Proofreader} {word : String} (hword : word ≠ "")
    (hmax : 0 < proofreader.settings.maxSuggestions) (role : Role) :
    (proofreader.suggest word role).2.advisor.memo.lookups =
      proofreader.advisor.memo.lookups +
        if proofreader.lexicon.exempts word = true then 0 else 1 := by
  let query : Query := ⟨word, role, proofreader.settings.maxSuggestions⟩
  show (proofreader.candidates query).2.advisor.memo.lookups = _
  by_cases hexempts : proofreader.lexicon.exempts word = true
  · rw [candidates_of_exempts hexempts, if_pos hexempts, Nat.add_zero]
  · have isOpen : query.IsOpen proofreader.lexicon :=
      ⟨Bool.eq_false_iff.mpr hexempts, hword, hmax⟩
    rw [candidates_of_isOpen isOpen, if_neg hexempts]
    exact Memo.lookups_ask _ _ _

theorem Follows.lookups_editsFor {proofreader : Proofreader} {rules : Rules}
    (h : proofreader.Follows rules) (hmax : 0 < rules.settings.maxSuggestions)
    {sites : List Site} (hwords : ∀ site ∈ sites, site.word ≠ "") :
    (proofreader.editsFor sites).2.advisor.memo.lookups =
      proofreader.advisor.memo.lookups +
        sites.countP fun site => !rules.lexicon.exempts site.word := by
  induction sites generalizing proofreader with
  | nil => rfl
  | cons site sites ih =>
      obtain ⟨hword, hwords⟩ := List.forall_mem_cons.mp hwords
      have hsite := lookups_suggest hword (h.settings ▸ hmax) site.role
      have hrest := ih (h.suggest site.word site.role).2 hwords
      rw [h.lexicon] at hsite
      show ((proofreader.suggest site.word site.role).2.editsFor sites).2.advisor.memo.lookups = _
      rw [hrest, hsite, List.countP_cons]
      cases rules.lexicon.exempts site.word with
      | true => simp
      | false =>
          simp only [Bool.false_eq_true, if_false, Bool.not_false, if_true]
          omega

/-- Nothing that is remembered is the answer for an empty word, for a word that is reserved or that
differs from a known word by case at most, or for no candidates. A suggestion for an exempt word
and a revision of a text that addresses the console leave the proofreader as it is. Any other
revision looks up each site whose word is not exempt once, if a suggestion is wanted at all. -/
theorem lookups_confined {proofreader : Proofreader} (reached : proofreader.Reachable) :
    let lexicon := proofreader.lexicon
    (∀ entry ∈ proofreader.advisor.memo.entries,
      entry.1.word ≠ "" ∧
      lexicon.isReserved entry.1.word = false ∧
      (∀ known ∈ lexicon.pool .general, Text.lower known ≠ Text.lower entry.1.word) ∧
      1 ≤ entry.1.limit) ∧
    (∀ query, lexicon.exempts query.word = true →
      (proofreader.candidates query).2 = proofreader) ∧
    (∀ word role, lexicon.exempts word = true →
      (proofreader.suggest word role).2 = proofreader) ∧
    (∀ text, proofreader.defers text = true → (proofreader.revise text).2 = proofreader) ∧
    (1 ≤ proofreader.settings.maxSuggestions → ∀ text, proofreader.defers text = false →
      (proofreader.revise text).2.stats.hits + (proofreader.revise text).2.stats.misses =
        proofreader.stats.hits + proofreader.stats.misses +
          (Site.scan text).countP fun site => !lexicon.exempts site.word) := by
  obtain ⟨rules, draft, h, hbuilt⟩ := reached.follows
  obtain ⟨hrecords, -, -⟩ := Lexicon.records_of_build hbuilt
  refine ⟨?_, ?_, ?_, ?_, ?_⟩
  · intro entry hentry
    obtain ⟨hexempts, hword, hlimit⟩ := reached.selective entry hentry
    rw [h.lexicon] at hexempts ⊢
    have hneither := mt hrecords.exempts_iff.mpr (Bool.eq_false_iff.mp hexempts)
    obtain ⟨hreserved, hknown⟩ := not_or.mp hneither
    refine ⟨hword, Bool.eq_false_iff.mpr hreserved, ?_, hlimit⟩
    intro known hmem hsame
    exact hknown ⟨known, hmem, hsame⟩
  · intro query hexempts
    rw [candidates_of_exempts hexempts]
  · intro word role hexempts
    show (proofreader.candidates ⟨word, role, _⟩).2 = proofreader
    rw [candidates_of_exempts hexempts]
  · intro text hdefers
    rw [revise, if_pos hdefers]
  · intro hmax text hdefers
    have hnext : (proofreader.revise text).2 = (proofreader.editsFor (Site.scan text)).2 := by
      rw [revise, if_neg (Bool.eq_false_iff.mp hdefers)]
    rw [hnext, h.lexicon]
    exact h.lookups_editsFor (h.settings ▸ hmax) fun site => Site.word_ne_empty_of_scanFrom

theorem lookups_confined_brief :
    brief.defers "likoh (a . push (b . puhs (c)))" = false ∧
      (brief.revise "likoh (a . push (b . puhs (c)))").2.stats.hits +
        (brief.revise "likoh (a . push (b . puhs (c)))").2.stats.misses = 2 := by
  have hdefers : brief.defers "likoh (a . push (b . puhs (c)))" = false := by decide +kernel
  have hsites : ((Site.scan "likoh (a . push (b . puhs (c)))").countP fun site =>
      !brief.lexicon.exempts site.word) = 2 := by
    decide +kernel
  obtain ⟨-, -, -, -, hcount⟩ := lookups_confined reachable_brief
  have htotal := hcount (by decide) _ hdefers
  rw [hsites] at htotal
  exact ⟨hdefers, htotal⟩

end Proofreader

end Respell
