import Respell.Proofreader
import Respell.Proofs.Fallible

/-! # Answers do not depend on memory -/

namespace Respell

namespace Memo

variable {κ ν : Type} {answer : κ → ν}

/-- Every remembered answer is the one that would be found anew. -/
def Faithful (memo : Memo κ ν) (answer : κ → ν) : Prop :=
  ∀ entry ∈ memo.entries, entry.2 = answer entry.1

theorem Faithful.clear {memo : Memo κ ν} : memo.clear.Faithful answer := by
  intro entry hentry
  simp [Memo.clear] at hentry

variable [DecidableEq κ]

theorem mem_inFront {entries : List (κ × ν)} {key : κ} {value : ν} {entry : κ × ν}
    (h : entry ∈ inFront key value entries) : entry = (key, value) ∨ entry ∈ entries := by
  rcases List.mem_cons.mp h with hnew | hold
  · exact Or.inl hnew
  · exact Or.inr (List.mem_filter.mp hold).1

theorem look_cases (memo : Memo κ ν) (key : κ) :
    (∃ value, memo.find? key = some value ∧
      memo.look key = (some value, { memo with
        entries := inFront key value memo.entries
        hits := memo.hits + 1 })) ∨
      memo.find? key = none ∧ memo.look key = (none, { memo with misses := memo.misses + 1 }) := by
  cases hfind : memo.find? key with
  | none => exact Or.inr ⟨rfl, by simp only [look, hfind]⟩
  | some value => exact Or.inl ⟨value, rfl, by simp only [look, hfind]⟩

theorem Faithful.eq_of_find? {memo : Memo κ ν} (h : memo.Faithful answer) {key : κ} {value : ν}
    (hfind : memo.find? key = some value) : value = answer key := by
  obtain ⟨entry, hentry, rfl⟩ := Option.map_eq_some_iff.mp hfind
  have hkey : entry.1 = key := by simpa using List.find?_some hentry
  rw [← hkey]
  exact h entry (List.mem_of_find?_eq_some hentry)

theorem Faithful.look {memo : Memo κ ν} (h : memo.Faithful answer) (key : κ) :
    (∀ value, (memo.look key).1 = some value → value = answer key) ∧
      (memo.look key).2.Faithful answer := by
  rcases memo.look_cases key with ⟨value, hfind, hlook⟩ | ⟨-, hlook⟩
  · obtain rfl := h.eq_of_find? hfind
    rw [hlook]
    refine ⟨fun value hvalue => (Option.some.inj hvalue).symm, ?_⟩
    intro entry hentry
    rcases mem_inFront hentry with rfl | hold
    · rfl
    · exact h entry hold
  · rw [hlook]
    refine ⟨?_, h⟩
    intro value hvalue
    cases hvalue

theorem Faithful.put {memo : Memo κ ν} (h : memo.Faithful answer) (key : κ) :
    (memo.put key (answer key)).Faithful answer := by
  intro entry hentry
  rcases mem_inFront (List.mem_of_mem_take hentry) with rfl | hold
  · rfl
  · exact h entry hold

theorem ask_cases (memo : Memo κ ν) (answer : κ → ν) (key : κ) :
    (∃ value, (memo.look key).1 = some value ∧
      memo.ask answer key = (value, (memo.look key).2)) ∨
      (memo.look key).1 = none ∧
        memo.ask answer key = (answer key, (memo.look key).2.put key (answer key)) := by
  unfold ask
  rcases memo.look key with ⟨_ | value, next⟩
  · exact Or.inr ⟨rfl, rfl⟩
  · exact Or.inl ⟨value, rfl, rfl⟩

/-- Asking gives the right answer, whether it is remembered or not, and remembers only that. -/
theorem Faithful.ask {memo : Memo κ ν} (h : memo.Faithful answer) (key : κ) :
    (memo.ask answer key).1 = answer key ∧ (memo.ask answer key).2.Faithful answer := by
  obtain ⟨hknown, hlook⟩ := h.look key
  rcases memo.ask_cases answer key with ⟨value, hvalue, hask⟩ | ⟨-, hask⟩
  · rw [hask]
    exact ⟨hknown value hvalue, hlook⟩
  · rw [hask]
    exact ⟨rfl, hlook.put key⟩

end Memo

/-- A query that the memory is asked: some candidates are wanted for a word that may need
correction. -/
def Query.IsOpen (query : Query) (lexicon : Lexicon) : Prop :=
  lexicon.exempts query.word = false ∧ query.word ≠ "" ∧ 0 < query.limit

instance (query : Query) (lexicon : Lexicon) : Decidable (query.IsOpen lexicon) :=
  inferInstanceAs (Decidable (_ ∧ _ ∧ _))

theorem Query.not_isOpen_iff {query : Query} {lexicon : Lexicon} :
    ¬query.IsOpen lexicon ↔
      lexicon.exempts query.word = true ∨ query.word = "" ∨ query.limit = 0 := by
  simp only [IsOpen, Classical.not_and_iff_not_or_not, Bool.not_eq_false, ne_eq, Classical.not_not,
    Nat.not_lt, Nat.le_zero]

/-- What the answers of a proofreader are to follow from. -/
structure Rules where
  lexicon : Lexicon
  settings : Settings

namespace Rules

variable (rules : Rules)

def candidates (query : Query) : List Candidate :=
  if rules.lexicon.exempts query.word ∨ query.word = "" ∨ query.limit = 0 then []
  else Candidate.rank rules.settings.thresholds rules.lexicon query

def suggestion? (word : String) (role : Role) : Option String :=
  (rules.candidates ⟨word, role, rules.settings.maxSuggestions⟩).head?.map (·.word)

def edits (sites : List Site) : List Edit :=
  sites.filterMap fun site => (rules.suggestion? site.word site.role).map (Edit.mk site)

def defers (text : String) : Bool :=
  (Proofreader.withLexicon rules.lexicon rules.settings none).defers text

def revision (text : String) : Revision :=
  if rules.defers text then { text }
  else Edit.applyAll rules.lexicon text (rules.edits (Site.scan text))

variable {rules} {query : Query}

theorem candidates_of_isOpen (h : query.IsOpen rules.lexicon) :
    rules.candidates query =
      Candidate.rank rules.settings.thresholds rules.lexicon query := by
  rw [candidates, if_neg]
  intro hclosed
  exact Query.not_isOpen_iff.mpr hclosed h

theorem candidates_of_not_isOpen (h : ¬query.IsOpen rules.lexicon) :
    rules.candidates query = [] := by
  rw [candidates, if_pos (Query.not_isOpen_iff.mp h)]

end Rules

namespace Proofreader

/-- A proofreader that goes by some rules, and remembers nothing that they would not lead to. -/
structure Follows (proofreader : Proofreader) (rules : Rules) : Prop where
  settings : proofreader.settings = rules.settings
  lexicon : proofreader.lexicon = rules.lexicon
  thresholds : proofreader.advisor.thresholds = rules.settings.thresholds
  memory : proofreader.advisor.memo.Faithful
    (Candidate.rank rules.settings.thresholds rules.lexicon)

theorem follows_withLexicon (lexicon : Lexicon) (settings : Settings)
    (environment : Option String) :
    (withLexicon lexicon settings environment).Follows ⟨lexicon, settings⟩ where
  settings := rfl
  lexicon := rfl
  thresholds := rfl
  memory := by
    intro entry hentry
    simp [withLexicon, Advisor.fresh] at hentry

def withMemo (proofreader : Proofreader) (memo : Memo Query (List Candidate)) : Proofreader :=
  { proofreader with advisor.memo := memo }

@[simp] theorem memo_withMemo (proofreader : Proofreader) (memo : Memo Query (List Candidate)) :
    (proofreader.withMemo memo).advisor.memo = memo :=
  rfl

def rank (proofreader : Proofreader) (query : Query) : List Candidate :=
  Candidate.rank proofreader.advisor.thresholds proofreader.lexicon query

theorem candidates_of_isOpen {proofreader : Proofreader} {query : Query}
    (h : query.IsOpen proofreader.lexicon) :
    proofreader.candidates query =
      ((proofreader.advisor.memo.ask proofreader.rank query).1,
        proofreader.withMemo (proofreader.advisor.memo.ask proofreader.rank query).2) := by
  obtain ⟨hexempts, hword, hlimit⟩ := h
  have hasks : ¬(query.word = "" ∨ query.limit = 0) := not_or.mpr ⟨hword, Nat.ne_of_gt hlimit⟩
  rw [candidates, if_neg (Bool.eq_false_iff.mp hexempts), Advisor.consult, if_neg hasks]
  rfl

theorem candidates_of_not_isOpen {proofreader : Proofreader} {query : Query}
    (h : ¬query.IsOpen proofreader.lexicon) : proofreader.candidates query = ([], proofreader) := by
  by_cases hexempts : proofreader.lexicon.exempts query.word = true
  · rw [candidates, if_pos hexempts]
  · have hidle := (Query.not_isOpen_iff.mp h).resolve_left hexempts
    rw [candidates, if_neg hexempts, Advisor.consult, if_pos hidle]

section Steps

variable {proofreader : Proofreader} {rules : Rules} (h : proofreader.Follows rules)

include h

theorem Follows.clear : proofreader.clear.Follows rules where
  settings := h.settings
  lexicon := h.lexicon
  thresholds := h.thresholds
  memory := Memo.Faithful.clear

theorem Follows.withMemo {memo : Memo Query (List Candidate)}
    (hmemo : memo.Faithful (Candidate.rank rules.settings.thresholds rules.lexicon)) :
    (proofreader.withMemo memo).Follows rules :=
  ⟨h.settings, h.lexicon, h.thresholds, hmemo⟩

theorem Follows.rank_eq :
    proofreader.rank = Candidate.rank rules.settings.thresholds rules.lexicon := by
  funext query
  rw [Proofreader.rank, h.lexicon, h.thresholds]

theorem Follows.look (query : Query) :
    (proofreader.withMemo (proofreader.advisor.memo.look query).2).Follows rules :=
  h.withMemo (h.memory.look query).2

theorem Follows.put (query : Query) :
    (proofreader.withMemo
      (proofreader.advisor.memo.put query (proofreader.rank query))).Follows rules := by
  rw [h.rank_eq]
  exact h.withMemo (h.memory.put query)

theorem Follows.candidates (query : Query) :
    (proofreader.candidates query).1 = rules.candidates query ∧
      (proofreader.candidates query).2.Follows rules := by
  by_cases isOpen : query.IsOpen rules.lexicon
  · obtain ⟨hreply, hmemo⟩ := h.memory.ask query
    rw [candidates_of_isOpen (h.lexicon ▸ isOpen), Rules.candidates_of_isOpen isOpen, h.rank_eq]
    exact ⟨hreply, h.withMemo hmemo⟩
  · rw [candidates_of_not_isOpen (h.lexicon ▸ isOpen), Rules.candidates_of_not_isOpen isOpen]
    exact ⟨rfl, h⟩

theorem Follows.suggest (word : String) (role : Role) :
    (proofreader.suggest word role).1 = rules.suggestion? word role ∧
      (proofreader.suggest word role).2.Follows rules := by
  obtain ⟨hreply, hnext⟩ := h.candidates ⟨word, role, rules.settings.maxSuggestions⟩
  unfold Proofreader.suggest Rules.suggestion?
  rw [h.settings]
  exact ⟨by rw [← hreply], hnext⟩

theorem Follows.defers (text : String) : proofreader.defers text = rules.defers text := by
  simp only [Rules.defers, Proofreader.defers, h.settings, h.lexicon]
  rfl

end Steps

theorem Follows.editsFor {proofreader : Proofreader} {rules : Rules}
    (h : proofreader.Follows rules) (sites : List Site) :
    (proofreader.editsFor sites).1 = rules.edits sites ∧
      (proofreader.editsFor sites).2.Follows rules := by
  induction sites generalizing proofreader with
  | nil => exact ⟨rfl, h⟩
  | cons site sites ih =>
      obtain ⟨hreply, hnext⟩ := h.suggest site.word site.role
      obtain ⟨hedits, hlast⟩ := ih hnext
      refine ⟨?_, hlast⟩
      simp only [Proofreader.editsFor, hreply, hedits, Rules.edits]
      cases hword : rules.suggestion? site.word site.role <;> simp [hword]

theorem Follows.revise {proofreader : Proofreader} {rules : Rules}
    (h : proofreader.Follows rules) (text : String) :
    (proofreader.revise text).1 = rules.revision text ∧
      (proofreader.revise text).2.Follows rules := by
  obtain ⟨hedits, hnext⟩ := h.editsFor (Site.scan text)
  unfold Proofreader.revise Rules.revision
  rw [h.defers text]
  by_cases hdefers : rules.defers text = true
  · simp only [hdefers, if_true]
    exact ⟨trivial, h⟩
  · simp only [hdefers]
    exact ⟨by simp only [hedits, hnext.lexicon]; rfl, hnext⟩

theorem Follows.reviseAll {proofreader : Proofreader} {rules : Rules}
    (h : proofreader.Follows rules) (texts : List String) :
    (proofreader.reviseAll texts).1 = texts.map rules.revision ∧
      (proofreader.reviseAll texts).2.Follows rules := by
  induction texts generalizing proofreader with
  | nil => exact ⟨rfl, h⟩
  | cons text texts ih =>
      obtain ⟨hreply, hnext⟩ := h.revise text
      obtain ⟨hreplies, hlast⟩ := ih hnext
      exact ⟨by simp only [Proofreader.reviseAll, hreply, hreplies, List.map_cons], hlast⟩

inductive Request where
  | suggest (word : String) (role : Role)
  | candidates (query : Query)
  | revise (text : String)
  | reviseAll (texts : List String)
  | clear
  deriving Repr, DecidableEq

inductive Reply where
  | word (word? : Option String)
  | candidates (candidates : List Candidate)
  | revision (revision : Revision)
  | revisions (revisions : List Revision)
  | cleared
  deriving Repr, DecidableEq

def perform (proofreader : Proofreader) : Request → Reply × Proofreader
  | .suggest word role => (proofreader.suggest word role).map .word id
  | .candidates query => (proofreader.candidates query).map .candidates id
  | .revise text => (proofreader.revise text).map .revision id
  | .reviseAll texts => (proofreader.reviseAll texts).map .revisions id
  | .clear => (.cleared, proofreader.clear)

def session (proofreader : Proofreader) : List Request → List Reply × Proofreader
  | [] => ([], proofreader)
  | request :: requests =>
      let (reply, proofreader) := proofreader.perform request
      let (replies, proofreader) := proofreader.session requests
      (reply :: replies, proofreader)

end Proofreader

def Rules.reply (rules : Rules) : Proofreader.Request → Proofreader.Reply
  | .suggest word role => .word (rules.suggestion? word role)
  | .candidates query => .candidates (rules.candidates query)
  | .revise text => .revision (rules.revision text)
  | .reviseAll texts => .revisions (texts.map rules.revision)
  | .clear => .cleared

namespace Proofreader

theorem Follows.perform {proofreader : Proofreader} {rules : Rules}
    (h : proofreader.Follows rules) (request : Request) :
    (proofreader.perform request).1 = rules.reply request ∧
      (proofreader.perform request).2.Follows rules := by
  cases request with
  | suggest word role =>
      obtain ⟨hreply, hnext⟩ := h.suggest word role
      exact ⟨congrArg Reply.word hreply, hnext⟩
  | candidates query =>
      obtain ⟨hreply, hnext⟩ := h.candidates query
      exact ⟨congrArg Reply.candidates hreply, hnext⟩
  | revise text =>
      obtain ⟨hreply, hnext⟩ := h.revise text
      exact ⟨congrArg Reply.revision hreply, hnext⟩
  | reviseAll texts =>
      obtain ⟨hreply, hnext⟩ := h.reviseAll texts
      exact ⟨congrArg Reply.revisions hreply, hnext⟩
  | clear => exact ⟨rfl, h.clear⟩

theorem Follows.session {proofreader : Proofreader} {rules : Rules}
    (h : proofreader.Follows rules) (requests : List Request) :
    (proofreader.session requests).1 = requests.map rules.reply ∧
      (proofreader.session requests).2.Follows rules := by
  induction requests generalizing proofreader with
  | nil => exact ⟨rfl, h⟩
  | cons request requests ih =>
      obtain ⟨hreply, hnext⟩ := h.perform request
      obtain ⟨hreplies, hlast⟩ := ih hnext
      exact ⟨by simp only [Proofreader.session, hreply, hreplies, List.map_cons], hlast⟩

/-- In a session every reply is that of a fresh proofreader, and no reply depends on how much can
be remembered. At any time a batch is revised text by text, so that texts in another order have
their revisions in that order. -/
theorem session_eq_fresh (lexicon : Lexicon) (settings : Settings) (environment : Option String)
    (requests : List Request) :
    let fresh := withLexicon lexicon settings environment
    let last := (fresh.session requests).2
    (fresh.session requests).1 = requests.map (fun request => (fresh.perform request).1) ∧
    (∀ capacity? environment',
      ((withLexicon lexicon { settings with cacheCapacity? := capacity? } environment').session
        requests).1 = (fresh.session requests).1) ∧
    (∀ texts, (last.reviseAll texts).1 = texts.map fun text => (fresh.revise text).1) ∧
    ∀ (texts : List String) (order : List Nat),
      (last.reviseAll (order.filterMap fun i => texts[i]?)).1 =
        order.filterMap fun i => (last.reviseAll texts).1[i]? := by
  intro fresh last
  have hfresh : fresh.Follows ⟨lexicon, settings⟩ :=
    follows_withLexicon lexicon settings environment
  obtain ⟨hreplies, hlast⟩ := hfresh.session requests
  refine ⟨?_, ?_, ?_, ?_⟩
  · rw [hreplies]
    exact List.map_congr_left fun request _ => ((hfresh.perform request).1).symm
  · intro capacity? environment'
    have hother := follows_withLexicon lexicon { settings with cacheCapacity? := capacity? }
      environment'
    rw [(hother.session requests).1, hreplies]
    apply List.map_congr_left
    intro request _
    cases request <;> rfl
  · intro texts
    rw [(hlast.reviseAll texts).1]
    exact List.map_congr_left fun text _ => ((hfresh.revise text).1).symm
  · intro texts order
    rw [(hlast.reviseAll _).1, (hlast.reviseAll texts).1, List.map_filterMap]
    simp only [List.getElem?_map]

/-- A proofreader over a lexicon that was made from a draft, after any requests. Requests that
come at the same time may take turns at the memory, which they look at and put answers into. -/
inductive Reachable : Proofreader → Prop
  | start {draft : Lexicon.Draft} {lexicon : Lexicon} (built : draft.build = .ok lexicon)
      (settings : Settings) (environment : Option String) :
      Reachable (withLexicon lexicon settings environment)
  | next {proofreader : Proofreader} (before : Reachable proofreader) (request : Request) :
      Reachable (proofreader.perform request).2
  | look {proofreader : Proofreader} (before : Reachable proofreader) {query : Query}
      (isOpen : query.IsOpen proofreader.lexicon) :
      Reachable (proofreader.withMemo (proofreader.advisor.memo.look query).2)
  | put {proofreader : Proofreader} (before : Reachable proofreader) {query : Query}
      (isOpen : query.IsOpen proofreader.lexicon) :
      Reachable (proofreader.withMemo
        (proofreader.advisor.memo.put query (proofreader.rank query)))

theorem Reachable.follows {proofreader : Proofreader} (h : proofreader.Reachable) :
    ∃ rules draft, proofreader.Follows rules ∧
      Lexicon.Draft.build draft = .ok rules.lexicon := by
  induction h with
  | @start draft lexicon built settings environment =>
      exact ⟨⟨lexicon, settings⟩, draft, follows_withLexicon lexicon settings environment, built⟩
  | next before request ih =>
      obtain ⟨rules, draft, hfollows, hbuilt⟩ := ih
      exact ⟨rules, draft, (hfollows.perform request).2, hbuilt⟩
  | look before isOpen ih =>
      obtain ⟨rules, draft, hfollows, hbuilt⟩ := ih
      exact ⟨rules, draft, hfollows.look _, hbuilt⟩
  | put before isOpen ih =>
      obtain ⟨rules, draft, hfollows, hbuilt⟩ := ih
      exact ⟨rules, draft, hfollows.put _, hbuilt⟩

theorem ofSettings_ok {settings : Settings} {environment : Option String}
    {proofreader : Proofreader} (h : ofSettings settings environment = .ok proofreader) :
    ∃ draft lexicon, Lexicon.Draft.build draft = .ok lexicon ∧
      proofreader = withLexicon lexicon settings environment := by
  obtain ⟨-, -, h⟩ := exists_of_bind_eq_ok h
  obtain ⟨lexicon, hlexicon, h⟩ := exists_of_bind_eq_ok h
  exact ⟨settings.draft, lexicon, eq_ok_of_mapError hlexicon, (Except.ok.inj h).symm⟩

theorem reachable_ofSettings {settings : Settings} {environment : Option String}
    {proofreader : Proofreader} (h : ofSettings settings environment = .ok proofreader) :
    proofreader.Reachable := by
  obtain ⟨draft, lexicon, hbuilt, rfl⟩ := ofSettings_ok h
  exact Reachable.start hbuilt settings environment

end Proofreader

end Respell
