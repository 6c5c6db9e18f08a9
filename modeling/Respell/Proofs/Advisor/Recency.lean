import Mathlib.Data.List.Induction
import Respell.Proofs.Proofreader.Lookups

/-! # What a memory of bounded size still knows -/

namespace Respell

namespace Memo

section Questions

/-! Questions that were asked, the latest first. -/

variable {κ : Type} [DecidableEq κ] {key : κ} {room : Nat} {asked : List κ}

/-- A question was asked before, and fewer than `room` different ones were asked after it was asked
for the last time. -/
def Recent (room : Nat) (key : κ) (asked : List κ) : Prop :=
  ∃ later earlier, asked = later ++ key :: earlier ∧ key ∉ later ∧ later.eraseDups.length < room

theorem filter_ne_of_not_mem {others : List κ} (h : key ∉ others) :
    others.filter (fun other => !other == key) = others := by
  rw [List.filter_eq_self]
  intro other hother
  have hne : other ≠ key := fun heq => h (heq ▸ hother)
  simp [hne]

theorem eraseDups_cons_new (h : key ∉ asked) :
    (key :: asked).eraseDups = key :: asked.eraseDups := by
  rw [List.eraseDups_cons, filter_ne_of_not_mem h]

theorem eraseDups_cons_again {later : List κ} (h : key ∉ later) (earlier : List κ) :
    ∃ older, key ∉ older ∧
      (later ++ key :: earlier).eraseDups = later.eraseDups ++ key :: older ∧
      (key :: (later ++ key :: earlier)).eraseDups = key :: (later.eraseDups ++ older) := by
  refine ⟨((earlier.filter fun other => !other == key).removeAll later).eraseDups, ?_, ?_, ?_⟩
  · simp [List.removeAll]
  · rw [List.eraseDups_append]
    simp [List.removeAll, h, List.eraseDups_cons, Bool.and_comm]
  · rw [List.eraseDups_cons, List.filter_append, filter_ne_of_not_mem h, List.eraseDups_append]
    simp

/-- The different questions stand in the order in which they were last asked, so it is the first
ones that are recent. -/
theorem recent_iff : Recent room key asked ↔ key ∈ asked.eraseDups.take room := by
  constructor
  · rintro ⟨later, earlier, rfl, hkey, hroom⟩
    obtain ⟨older, -, hdistinct, -⟩ := eraseDups_cons_again hkey earlier
    rw [hdistinct, List.take_append, List.mem_append]
    right
    rw [List.take_cons (by omega)]
    exact List.mem_cons_self
  · intro hmem
    have hasked : key ∈ asked := List.mem_eraseDups.mp (List.mem_of_mem_take hmem)
    obtain ⟨later, earlier, rfl, hkey⟩ := List.eq_append_cons_of_mem hasked
    refine ⟨later, earlier, rfl, hkey, ?_⟩
    obtain ⟨older, -, hdistinct, -⟩ := eraseDups_cons_again hkey earlier
    by_contra hroom
    rw [hdistinct, List.take_append_of_le_length (by omega)] at hmem
    exact hkey (List.mem_eraseDups.mp (List.mem_of_mem_take hmem))

instance (room : Nat) (key : κ) (asked : List κ) : Decidable (Recent room key asked) :=
  decidable_of_iff _ recent_iff.symm

theorem take_eraseDups_of_recent (h : Recent room key asked) :
    (key :: asked).eraseDups.take room =
      key :: (asked.eraseDups.take room).filter (fun other => !other == key) := by
  obtain ⟨later, earlier, rfl, hkey, hroom⟩ := h
  obtain ⟨older, holder, hdistinct, hnext⟩ := eraseDups_cons_again hkey earlier
  obtain ⟨spare, rfl⟩ := Nat.exists_eq_add_of_lt hroom
  have hlater : key ∉ later.eraseDups := fun hmem => hkey (List.mem_eraseDups.mp hmem)
  have hsome : key ∉ older.take spare := fun hmem => holder (List.mem_of_mem_take hmem)
  rw [hnext, hdistinct, List.take_succ_cons, List.take_length_add_append, Nat.add_assoc,
    List.take_length_add_append, List.take_succ_cons, List.filter_append,
    filter_ne_of_not_mem hlater, List.filter_cons_of_neg (by simp), filter_ne_of_not_mem hsome]

theorem take_eraseDups_of_not_recent (hroom : 0 < room) (h : ¬Recent room key asked) :
    (key :: asked).eraseDups.take room = (key :: asked.eraseDups.take room).take room := by
  obtain ⟨room, rfl⟩ := Nat.exists_eq_add_of_lt hroom
  rw [Nat.zero_add] at h ⊢
  rw [List.take_succ_cons, List.take_take, Nat.min_eq_left (Nat.le_succ room)]
  by_cases hasked : key ∈ asked
  · obtain ⟨later, earlier, rfl, hkey⟩ := List.eq_append_cons_of_mem hasked
    obtain ⟨older, -, hdistinct, hnext⟩ := eraseDups_cons_again hkey earlier
    have hlater : room + 1 ≤ later.eraseDups.length := by
      by_contra hless
      exact h ⟨later, earlier, rfl, hkey, by omega⟩
    rw [hnext, hdistinct, List.take_succ_cons, List.take_append_of_le_length (by omega),
      List.take_append_of_le_length (by omega)]
  · rw [eraseDups_cons_new hasked, List.take_succ_cons]

end Questions

variable {κ ν : Type} {memo : Memo κ ν}

def keys (memo : Memo κ ν) : List κ := memo.entries.map Prod.fst

variable [DecidableEq κ] {asked : List κ}

theorem map_fst_inFront (key : κ) (value : ν) (entries : List (κ × ν)) :
    (inFront key value entries).map Prod.fst =
      key :: (entries.map Prod.fst).filter (fun other => !other == key) := by
  simp only [inFront, List.map_cons, List.filter_map]
  congr 2
  apply List.filter_congr
  intro entry _
  rw [Bool.eq_iff_iff]
  simp

theorem keys_put (memo : Memo κ ν) (key : κ) (value : ν) :
    (memo.put key value).keys =
      (key :: memo.keys.filter (fun other => !other == key)).take memo.capacity := by
  rw [keys, put, List.map_take, map_fst_inFront, keys]

theorem find?_eq_none_iff {key : κ} : memo.find? key = none ↔ key ∉ memo.keys := by
  rw [find?, Option.map_eq_none_iff, List.find?_eq_none, keys, List.mem_map]
  constructor
  · rintro h ⟨entry, hentry, heq⟩
    exact h entry hentry (decide_eq_true heq)
  · intro h entry hentry heq
    exact h ⟨entry, hentry, of_decide_eq_true heq⟩

/-- A hit: the question moves to the front. -/
structure Hits (memo : Memo κ ν) (key : κ) (next : Memo κ ν) : Prop where
  capacity : next.capacity = memo.capacity
  keys : next.keys = key :: memo.keys.filter (fun other => !other == key)
  hits : next.hits = memo.hits + 1
  misses : next.misses = memo.misses

/-- A miss: the question is put in front of the others, as far as there is room. -/
structure Misses (memo : Memo κ ν) (key : κ) (next : Memo κ ν) : Prop where
  capacity : next.capacity = memo.capacity
  keys : next.keys = (key :: memo.keys).take memo.capacity
  hits : next.hits = memo.hits
  misses : next.misses = memo.misses + 1

theorem hits_or_misses_ask (memo : Memo κ ν) (answer : κ → ν) (key : κ) :
    (key ∈ memo.keys ∧ memo.Hits key (memo.ask answer key).2) ∨
      (key ∉ memo.keys ∧ memo.Misses key (memo.ask answer key).2) := by
  rcases memo.look_cases key with ⟨value, hfind, hlook⟩ | ⟨hfind, hlook⟩
  · left
    refine ⟨?_, ?_⟩
    · by_contra hkey
      rw [find?_eq_none_iff.mpr hkey] at hfind
      cases hfind
    · rw [ask, hlook]
      exact ⟨rfl, map_fst_inFront key value memo.entries, rfl, rfl⟩
  · right
    have hkey : key ∉ memo.keys := find?_eq_none_iff.mp hfind
    refine ⟨hkey, ?_⟩
    rw [ask, hlook]
    refine ⟨rfl, ?_, rfl, rfl⟩
    rw [keys_put]
    exact congrArg (fun others => (key :: others).take memo.capacity) (filter_ne_of_not_mem hkey)

theorem capacity_ask (memo : Memo κ ν) (answer : κ → ν) (key : κ) :
    (memo.ask answer key).2.capacity = memo.capacity := by
  rcases memo.hits_or_misses_ask answer key with ⟨-, hnext⟩ | ⟨-, hnext⟩
  · exact hnext.capacity
  · exact hnext.capacity

/-- The memo holds the questions asked last as far as there is room, and has counted them all. -/
structure Recalls (memo : Memo κ ν) (asked : List κ) : Prop where
  keys_eq : memo.keys = asked.eraseDups.take memo.capacity
  lookups_eq : memo.lookups = asked.length

theorem recalls_clear (memo : Memo κ ν) : memo.clear.Recalls [] := by
  refine ⟨?_, rfl⟩
  simp [clear, keys]

theorem Recalls.mem_keys_iff (h : memo.Recalls asked) {key : κ} :
    key ∈ memo.keys ↔ Recent memo.capacity key asked := by
  rw [h.keys_eq, recent_iff]

theorem Recalls.ask (h : memo.Recalls asked) (answer : κ → ν) (key : κ) :
    (memo.ask answer key).2.Recalls (key :: asked) := by
  have hlookups : (memo.ask answer key).2.lookups = (key :: asked).length := by
    rw [lookups_ask, h.lookups_eq, List.length_cons]
  refine ⟨?_, hlookups⟩
  rw [capacity_ask]
  rcases memo.hits_or_misses_ask answer key with ⟨hkey, hnext⟩ | ⟨hkey, hnext⟩
  · rw [hnext.keys, h.keys_eq]
    exact (take_eraseDups_of_recent (h.mem_keys_iff.mp hkey)).symm
  · rw [hnext.keys, h.keys_eq]
    exact (take_eraseDups_of_not_recent memo.capacity_pos (mt h.mem_keys_iff.mpr hkey)).symm

theorem Recalls.counts_ask (h : memo.Recalls asked) (answer : κ → ν) (key : κ) :
    let next := (memo.ask answer key).2
    if Recent memo.capacity key asked then
      next.hits = memo.hits + 1 ∧ next.misses = memo.misses
    else next.hits = memo.hits ∧ next.misses = memo.misses + 1 := by
  intro next
  rcases memo.hits_or_misses_ask answer key with ⟨hkey, hnext⟩ | ⟨hkey, hnext⟩
  · rw [if_pos (h.mem_keys_iff.mp hkey)]
    exact ⟨hnext.hits, hnext.misses⟩
  · rw [if_neg (mt h.mem_keys_iff.mpr hkey)]
    exact ⟨hnext.hits, hnext.misses⟩

end Memo

namespace Advisor

inductive Call where
  | consult (query : Query)
  | clear
  deriving Repr, DecidableEq

/-- The question of a call. A query for no word or for no candidates asks nothing. -/
def Call.question? : Call → Option Query
  | .consult query => if query.word = "" ∨ query.limit = 0 then none else some query
  | .clear => none

/-- The questions since the memory was last cleared, the latest first. -/
def questions (calls : List Call) : List Query :=
  (calls.reverse.takeWhile (· ≠ .clear)).filterMap Call.question?

def perform (advisor : Advisor) : Call → Advisor
  | .consult query => (advisor.consult query).2
  | .clear => advisor.clear

theorem questions_clear (calls : List Call) : questions (calls ++ [.clear]) = [] := by
  simp [questions]

theorem questions_consult (calls : List Call) (query : Query) :
    questions (calls ++ [.consult query]) =
      (Call.consult query).question?.toList ++ questions calls := by
  simp only [questions, List.reverse_append, List.reverse_singleton, List.singleton_append]
  rw [List.takeWhile_cons_of_pos (by simp), List.filterMap_cons]
  cases (Call.consult query).question? <;> rfl

theorem consult_idle (advisor : Advisor) {query : Query}
    (h : query.word = "" ∨ query.limit = 0) : (advisor.consult query).2 = advisor := by
  rw [consult, if_pos h]

theorem memo_consult (advisor : Advisor) {query : Query}
    (h : ¬(query.word = "" ∨ query.limit = 0)) :
    (advisor.consult query).2.memo =
      (advisor.memo.ask (Candidate.rank advisor.thresholds advisor.lexicon) query).2 := by
  rw [consult, if_neg h]

/-- What a whole run of calls leaves in the memory. -/
theorem recalls_run (lexicon : Lexicon) (thresholds : Thresholds) (capacity : Nat)
    (positive : 0 < capacity) (calls : List Call) :
    let advisor := calls.foldl perform (fresh lexicon thresholds capacity positive)
    advisor.memo.capacity = capacity ∧ advisor.memo.Recalls (questions calls) := by
  induction calls using List.reverseRecOn with
  | nil => exact ⟨rfl, Memo.recalls_clear (fresh lexicon thresholds capacity positive).memo⟩
  | append_singleton calls call ih =>
      rw [List.foldl_append]
      cases call with
      | clear =>
          rw [questions_clear]
          exact ⟨ih.1, Memo.recalls_clear _⟩
      | consult query =>
          rw [questions_consult]
          by_cases hidle : query.word = "" ∨ query.limit = 0
          · simp only [List.foldl_cons, List.foldl_nil, perform, consult_idle _ hidle,
              Call.question?, if_pos hidle]
            exact ih
          · simp only [List.foldl_cons, List.foldl_nil, perform, memo_consult _ hidle,
              Call.question?, if_neg hidle, Memo.capacity_ask]
            exact ⟨ih.1, ih.2.ask _ query⟩

/-- After any calls the hits and misses together are the questions since the memory was last
cleared, the entries are as many as different questions fit in, and the capacity is what it was. A
query that asks nothing changes nothing. Any other is a hit if it was asked before and fewer other
questions than there is room for were asked since, and a miss if not. -/
theorem consult_recency (lexicon : Lexicon) (thresholds : Thresholds) (capacity : Nat)
    (positive : 0 < capacity) (calls : List Call) :
    let advisor := calls.foldl perform (fresh lexicon thresholds capacity positive)
    let asked := questions calls
    advisor.stats.hits + advisor.stats.misses = asked.length ∧
    advisor.stats.entries = min capacity asked.eraseDups.length ∧
    advisor.stats.capacity = capacity ∧
    ∀ query, let next := (advisor.consult query).2
      if query.word = "" ∨ query.limit = 0 then next = advisor
      else if Memo.Recent capacity query asked then
        next.stats.hits = advisor.stats.hits + 1 ∧ next.stats.misses = advisor.stats.misses
      else
        next.stats.hits = advisor.stats.hits ∧ next.stats.misses = advisor.stats.misses + 1 := by
  intro advisor asked
  obtain ⟨hcapacity, hrecalls⟩ : advisor.memo.capacity = capacity ∧ advisor.memo.Recalls asked :=
    recalls_run lexicon thresholds capacity positive calls
  refine ⟨hrecalls.lookups_eq, ?_, hcapacity, ?_⟩
  · have hlength := congrArg List.length hrecalls.keys_eq
    rw [Memo.keys, List.length_map, List.length_take, hcapacity] at hlength
    exact hlength
  · intro query next
    split
    · rename_i hidle
      exact consult_idle advisor hidle
    · rename_i hasks
      have hcounts := hrecalls.counts_ask (Candidate.rank advisor.thresholds advisor.lexicon) query
      rw [hcapacity] at hcounts
      simp only [stats, Memo.stats, next, memo_consult advisor hasks]
      exact hcounts

def callFor (word : String) : Call := .consult ⟨word, .function, 1⟩

/-- With room for two, the last question but one is a hit, and the one before it a miss. -/
theorem consult_recency_two :
    let calls :=
      [callFor "pusj", .clear, callFor "pusj", callFor "pritn", callFor "", callFor "lenn"]
    let advisor := calls.foldl perform (fresh Lexicon.standard {} 2 (by decide))
    advisor.stats.hits + advisor.stats.misses = 3 ∧ advisor.stats.entries = 2 ∧
      (advisor.consult ⟨"pritn", .function, 1⟩).2.stats.hits = advisor.stats.hits + 1 ∧
      (advisor.consult ⟨"pusj", .function, 1⟩).2.stats.misses = advisor.stats.misses + 1 := by
  intro calls advisor
  have hquestions : questions calls =
      [⟨"lenn", .function, 1⟩, ⟨"pritn", .function, 1⟩, ⟨"pusj", .function, 1⟩] := by
    decide
  obtain ⟨hcount, hentries, -, hnext⟩ :=
    consult_recency Lexicon.standard {} 2 (by decide) calls
  rw [hquestions] at hcount hentries hnext
  have hhit := hnext ⟨"pritn", .function, 1⟩
  have hmiss := hnext ⟨"pusj", .function, 1⟩
  rw [if_neg (by decide), if_pos (by decide)] at hhit
  rw [if_neg (by decide), if_neg (by decide)] at hmiss
  exact ⟨hcount, hentries, hhit.1, hmiss.2⟩

end Advisor

end Respell
