import Mathlib.Algebra.GroupWithZero.Nat
import Mathlib.Logic.Relation
import Respell.Proofs.Proofreader.Lookups

/-! # Texts that are revised at the same time -/

namespace Respell

namespace Rules

def queryAt (rules : Rules) (site : Site) : Query :=
  ⟨site.word, site.role, rules.settings.maxSuggestions⟩

def sites (rules : Rules) (text : String) : List Site :=
  if rules.defers text then [] else Site.scan text

theorem edits_cons (rules : Rules) (site : Site) (sites : List Site) :
    rules.edits (site :: sites) =
      (((rules.candidates (rules.queryAt site)).head?.map (·.word)).map (Edit.mk site)).toList ++
        rules.edits sites := by
  rw [edits, List.filterMap_cons, suggestion?, queryAt]
  cases (rules.candidates ⟨site.word, site.role, rules.settings.maxSuggestions⟩).head? <;> rfl

end Rules

namespace Proofreader

def queryAt (proofreader : Proofreader) (site : Site) : Query :=
  ⟨site.word, site.role, proofreader.settings.maxSuggestions⟩

/-- A text whose revision has begun. -/
structure Task where
  text : String
  /-- Where words are still to be found. -/
  sites : List Site
  edits : List Edit := []
  /-- The word at the first of the sites was looked up in vain. -/
  missed : Bool := false

def Task.settle (task : Task) (site : Site) (sites : List Site) (candidates : List Candidate) :
    Task :=
  { task with
    sites
    edits := task.edits ++ ((candidates.head?.map (·.word)).map (Edit.mk site)).toList
    missed := false }

def begin (proofreader : Proofreader) (text : String) : Task :=
  { text, sites := if proofreader.defers text then [] else Site.scan text }

theorem Follows.begin_eq {proofreader : Proofreader} {rules : Rules}
    (h : proofreader.Follows rules) :
    proofreader.begin = fun text => { text, sites := rules.sites text } := by
  funext text
  rw [begin, h.defers, Rules.sites]

/-- What is done for a text until it leaves the memory to others again. -/
def step (proofreader : Proofreader) (task : Task) : Task × Proofreader :=
  match task.sites with
  | [] => (task, proofreader)
  | site :: sites =>
      let query := proofreader.queryAt site
      let memo := proofreader.advisor.memo
      if task.missed then
        let candidates := proofreader.rank query
        (task.settle site sites candidates, proofreader.withMemo (memo.put query candidates))
      else if query.IsOpen proofreader.lexicon then
        match memo.look query with
        | (some candidates, memo) =>
            (task.settle site sites candidates, proofreader.withMemo memo)
        | (none, memo) => ({ task with missed := true }, proofreader.withMemo memo)
      else (task.settle site sites [], proofreader)

def finish (proofreader : Proofreader) (task : Task) : Revision :=
  if proofreader.defers task.text then { text := task.text }
  else Edit.applyAll proofreader.lexicon task.text task.edits

inductive Turn (proofreader : Proofreader) (task : Task) (site : Site) (sites : List Site) :
    Task × Proofreader → Prop
  | skip (before : task.missed = false)
      (closed : ¬(proofreader.queryAt site).IsOpen proofreader.lexicon) :
      Turn proofreader task site sites (task.settle site sites [], proofreader)
  | hit (before : task.missed = false)
      (isOpen : (proofreader.queryAt site).IsOpen proofreader.lexicon)
      {candidates : List Candidate}
      (known : (proofreader.advisor.memo.look (proofreader.queryAt site)).1 = some candidates) :
      Turn proofreader task site sites (task.settle site sites candidates,
        proofreader.withMemo (proofreader.advisor.memo.look (proofreader.queryAt site)).2)
  | miss (before : task.missed = false)
      (isOpen : (proofreader.queryAt site).IsOpen proofreader.lexicon)
      (unknown : (proofreader.advisor.memo.look (proofreader.queryAt site)).1 = none) :
      Turn proofreader task site sites ({ task with missed := true },
        proofreader.withMemo (proofreader.advisor.memo.look (proofreader.queryAt site)).2)
  | put (missed : task.missed = true) :
      Turn proofreader task site sites
        (task.settle site sites (proofreader.rank (proofreader.queryAt site)),
          proofreader.withMemo (proofreader.advisor.memo.put (proofreader.queryAt site)
            (proofreader.rank (proofreader.queryAt site))))

theorem turn_step (proofreader : Proofreader) {task : Task} {site : Site} {sites : List Site}
    (hsites : task.sites = site :: sites) :
    proofreader.Turn task site sites (proofreader.step task) := by
  simp only [step, hsites]
  cases hmissed : task.missed with
  | true => exact .put hmissed
  | false =>
      rw [if_neg Bool.false_ne_true]
      by_cases hopen : (proofreader.queryAt site).IsOpen proofreader.lexicon
      · rw [if_pos hopen]
        split
        · rename_i candidates memo hlook
          have hturn : proofreader.Turn task site sites _ :=
            .hit hmissed hopen (congrArg Prod.fst hlook)
          rwa [hlook] at hturn
        · rename_i memo hlook
          have hturn : proofreader.Turn task site sites _ :=
            .miss hmissed hopen (congrArg Prod.fst hlook)
          rwa [hlook, hsites] at hturn
      · rw [if_neg hopen]
        exact .skip hmissed hopen

theorem step_of_missed (proofreader : Proofreader) (task : Task) {site : Site}
    {sites : List Site} (hsites : task.sites = site :: sites) (hmissed : task.missed = true) :
    proofreader.step task =
      (task.settle site sites (proofreader.rank (proofreader.queryAt site)),
        proofreader.withMemo (proofreader.advisor.memo.put (proofreader.queryAt site)
          (proofreader.rank (proofreader.queryAt site)))) := by
  simp only [step, hsites, hmissed, if_true]

/-- A text whose edits so far are right, and which missed nothing but an open query. -/
structure Task.Sound (task : Task) (rules : Rules) : Prop where
  edits_eq : task.edits ++ rules.edits task.sites = rules.edits (rules.sites task.text)
  isOpen : task.missed = true → ∀ site ∈ task.sites.head?,
    (rules.queryAt site).IsOpen rules.lexicon

/-- How often a text is still to look a word up. -/
def Task.lookups (task : Task) (rules : Rules) : Nat :=
  (if task.missed then task.sites.tail else task.sites).countP fun site =>
    (rules.queryAt site).IsOpen rules.lexicon

theorem Task.lookups_settle (task : Task) (rules : Rules) (site : Site) (sites : List Site)
    (candidates : List Candidate) :
    (task.settle site sites candidates).lookups rules =
      sites.countP fun site => (rules.queryAt site).IsOpen rules.lexicon :=
  rfl

theorem Task.lookups_of_missed {task : Task} (hmissed : task.missed = true) (rules : Rules) :
    task.lookups rules =
      task.sites.tail.countP fun site => (rules.queryAt site).IsOpen rules.lexicon := by
  rw [Task.lookups, if_pos hmissed]

theorem Task.lookups_cons {task : Task} {site : Site} {sites : List Site}
    (hsites : task.sites = site :: sites) (hmissed : task.missed = false) (rules : Rules) :
    task.lookups rules =
      (sites.countP fun site => (rules.queryAt site).IsOpen rules.lexicon) +
        if (rules.queryAt site).IsOpen rules.lexicon then 1 else 0 := by
  rw [Task.lookups, if_neg (Bool.eq_false_iff.mp hmissed), hsites, List.countP_cons]
  simp only [decide_eq_true_eq]

theorem Task.Sound.settle {task : Task} {rules : Rules} (h : task.Sound rules) {site : Site}
    {sites : List Site} (hsites : task.sites = site :: sites) {candidates : List Candidate}
    (hcandidates : candidates = rules.candidates (rules.queryAt site)) :
    (task.settle site sites candidates).Sound rules where
  edits_eq := by
    have hedits := h.edits_eq
    rw [hsites, rules.edits_cons, ← hcandidates, ← List.append_assoc] at hedits
    exact hedits
  isOpen := by
    intro hmissed
    cases hmissed

/-- What a step keeps: the proofreader goes by the rules, the text by its task, and a look that is
made is one less to make. -/
structure Kept (rules : Rules) (proofreader : Proofreader) (task : Task)
    (next : Task × Proofreader) : Prop where
  follows : next.2.Follows rules
  sound : next.1.Sound rules
  text_eq : next.1.text = task.text
  lookups_eq : next.2.advisor.memo.lookups + next.1.lookups rules =
    proofreader.advisor.memo.lookups + task.lookups rules

theorem Turn.kept {rules : Rules} {proofreader : Proofreader} {task : Task} {site : Site}
    {sites : List Site} {next : Task × Proofreader}
    (turn : proofreader.Turn task site sites next) (hsites : task.sites = site :: sites)
    (h : proofreader.Follows rules) (htask : task.Sound rules) :
    Kept rules proofreader task next := by
  have hquery : proofreader.queryAt site = rules.queryAt site := by
    rw [queryAt, h.settings, Rules.queryAt]
  cases turn with
  | skip before closed =>
      rw [hquery, h.lexicon] at closed
      refine ⟨h, htask.settle hsites (Rules.candidates_of_not_isOpen closed).symm, rfl, ?_⟩
      rw [Task.lookups_settle, Task.lookups_cons hsites before, if_neg closed, Nat.add_zero]
  | @hit before isOpen candidates known =>
      rw [hquery, h.lexicon] at isOpen
      rw [hquery] at known ⊢
      have hcandidates := (h.memory.look _).1 candidates known
      rw [← Rules.candidates_of_isOpen isOpen] at hcandidates
      refine ⟨h.look _, htask.settle hsites hcandidates, rfl, ?_⟩
      rw [memo_withMemo, Memo.lookups_look, Task.lookups_settle,
        Task.lookups_cons hsites before, if_pos isOpen]
      omega
  | miss before isOpen unknown =>
      rw [hquery, h.lexicon] at isOpen
      refine ⟨h.look _, ⟨htask.edits_eq, ?_⟩, rfl, ?_⟩
      · intro _ other hother
        rw [hsites] at hother
        obtain rfl := Option.some.inj hother
        exact isOpen
      · rw [memo_withMemo, Memo.lookups_look, Task.lookups_of_missed rfl,
          Task.lookups_cons hsites before, if_pos isOpen, hsites, List.tail_cons]
        omega
  | put missed =>
      have isOpen := htask.isOpen missed site (by rw [hsites]; rfl)
      have hcandidates : proofreader.rank (proofreader.queryAt site) =
          rules.candidates (rules.queryAt site) := by
        rw [h.rank_eq, hquery, Rules.candidates_of_isOpen isOpen]
      refine ⟨h.put _, htask.settle hsites hcandidates, rfl, ?_⟩
      rw [memo_withMemo, Memo.lookups_put, Task.lookups_settle, Task.lookups_of_missed missed,
        hsites, List.tail_cons]

theorem Turn.reachable {rules : Rules} {proofreader : Proofreader} {task : Task} {site : Site}
    {sites : List Site} {next : Task × Proofreader}
    (turn : proofreader.Turn task site sites next) (hsites : task.sites = site :: sites)
    (h : proofreader.Follows rules) (htask : task.Sound rules) (reached : proofreader.Reachable) :
    next.2.Reachable := by
  cases turn with
  | skip before closed => exact reached
  | hit before isOpen known => exact reached.look isOpen
  | miss before isOpen unknown => exact reached.look isOpen
  | put missed =>
      have isOpen := htask.isOpen missed site (by rw [hsites]; rfl)
      apply reached.put
      rw [queryAt, h.settings, h.lexicon]
      exact isOpen

def Task.bound (task : Task) : Nat := 2 * task.sites.length + if task.missed then 0 else 1

theorem Turn.bound_lt {proofreader : Proofreader} {task : Task} {site : Site} {sites : List Site}
    {next : Task × Proofreader} (turn : proofreader.Turn task site sites next)
    (hsites : task.sites = site :: sites) : next.1.bound < task.bound := by
  cases turn with
  | skip before closed | hit before isOpen known | put before =>
      simp only [Task.bound, Task.settle, before, hsites, List.length_cons, if_true,
        Bool.false_eq_true, if_false]
      omega
  | miss before isOpen unknown =>
      simp only [Task.bound, before, hsites, if_true, Bool.false_eq_true, if_false]
      omega

structure Batch where
  tasks : List Task
  proofreader : Proofreader

namespace Batch

def start (proofreader : Proofreader) (texts : List String) : Batch :=
  ⟨texts.map proofreader.begin, proofreader⟩

/-- Any text that has sites left may make the next step. -/
inductive Step : Batch → Batch → Prop
  | turn (before after : List Task) (proofreader : Proofreader) {task : Task}
      (unfinished : task.sites ≠ []) :
      Step ⟨before ++ task :: after, proofreader⟩
        ⟨before ++ (proofreader.step task).1 :: after, (proofreader.step task).2⟩

def Finished (batch : Batch) : Prop := ∀ task ∈ batch.tasks, task.sites = []

def revisions (batch : Batch) : List Revision := batch.tasks.map batch.proofreader.finish

/-- The words that were looked up, and those that are still to be looked up. -/
def lookups (batch : Batch) (rules : Rules) : Nat :=
  batch.proofreader.advisor.memo.lookups + (batch.tasks.map (·.lookups rules)).sum

structure Sound (batch : Batch) (rules : Rules) : Prop where
  follows : batch.proofreader.Follows rules
  reachable : batch.proofreader.Reachable
  tasks : ∀ task ∈ batch.tasks, task.Sound rules

theorem Step.sound {rules : Rules} {batch next : Batch} (step : Step batch next)
    (h : batch.Sound rules) :
    next.Sound rules ∧ next.tasks.map Task.text = batch.tasks.map Task.text ∧
      next.lookups rules = batch.lookups rules := by
  cases step with
  | @turn before after proofreader task unfinished =>
      obtain ⟨site, sites, hsites⟩ := List.exists_cons_of_ne_nil unfinished
      obtain ⟨hbefore, hhere⟩ := List.forall_mem_append.mp h.tasks
      obtain ⟨htask, hafter⟩ := List.forall_mem_cons.mp hhere
      have hturn := proofreader.turn_step hsites
      have hkept := hturn.kept hsites h.follows htask
      refine ⟨⟨hkept.follows, hturn.reachable hsites h.follows htask h.reachable, ?_⟩, ?_, ?_⟩
      · exact List.forall_mem_append.mpr
          ⟨hbefore, List.forall_mem_cons.mpr ⟨hkept.sound, hafter⟩⟩
      · simp [hkept.text_eq]
      · have hlookups := hkept.lookups_eq
        simp only [lookups, List.map_append, List.map_cons, List.sum_append, List.sum_cons]
        omega

theorem sound_run {rules : Rules} {batch last : Batch}
    (run : Relation.ReflTransGen Step batch last) (h : batch.Sound rules) :
    last.Sound rules ∧ last.tasks.map Task.text = batch.tasks.map Task.text ∧
      last.lookups rules = batch.lookups rules := by
  induction run with
  | refl => exact ⟨h, rfl, rfl⟩
  | tail run step ih =>
      obtain ⟨hsound, htexts, hlookups⟩ := ih
      obtain ⟨hnext, htexts', hlookups'⟩ := step.sound hsound
      exact ⟨hnext, htexts'.trans htexts, hlookups'.trans hlookups⟩

theorem sound_start {proofreader : Proofreader} {rules : Rules} (h : proofreader.Follows rules)
    (reached : proofreader.Reachable) (texts : List String) :
    (start proofreader texts).Sound rules where
  follows := h
  reachable := reached
  tasks := by
    intro task htask
    rw [start, h.begin_eq] at htask
    obtain ⟨text, -, rfl⟩ := List.mem_map.mp htask
    refine ⟨rfl, ?_⟩
    intro hmissed
    cases hmissed

theorem Sound.revisions_eq {rules : Rules} {batch : Batch} (h : batch.Sound rules)
    (finished : batch.Finished) :
    batch.revisions = (batch.tasks.map Task.text).map rules.revision := by
  rw [revisions, List.map_map]
  apply List.map_congr_left
  intro task htask
  have hedits := (h.tasks task htask).edits_eq
  rw [finished task htask] at hedits
  simp only [finish, Function.comp_apply, Rules.revision, h.follows.defers, h.follows.lexicon]
  split
  · rfl
  · rename_i hdefers
    rw [Rules.sites, if_neg hdefers] at hedits
    rw [← hedits]
    simp [Rules.edits]

theorem lookups_of_finished {batch : Batch} (finished : batch.Finished) (rules : Rules) :
    batch.lookups rules = batch.proofreader.advisor.memo.lookups := by
  have hnone : ∀ task ∈ batch.tasks, task.lookups rules = 0 := by
    intro task htask
    simp [Task.lookups, finished task htask]
  rw [lookups, List.map_congr_left hnone]
  simp

theorem wellFounded_step : WellFounded fun later earlier : Batch => earlier.Step later := by
  have hbound : ∀ {later earlier : Batch}, earlier.Step later →
      (later.tasks.map Task.bound).sum < (earlier.tasks.map Task.bound).sum := by
    intro later earlier step
    cases step with
    | @turn before after proofreader task unfinished =>
        obtain ⟨site, sites, hsites⟩ := List.exists_cons_of_ne_nil unfinished
        have hless := (proofreader.turn_step hsites).bound_lt hsites
        simp only [List.map_append, List.map_cons, List.sum_append, List.sum_cons]
        omega
  exact Subrelation.wf hbound (measure fun batch : Batch => (batch.tasks.map Task.bound).sum).wf

theorem exists_step {batch : Batch} (h : ¬batch.Finished) : ∃ next, batch.Step next := by
  simp only [Finished, not_forall] at h
  obtain ⟨task, htask, hsites⟩ := h
  obtain ⟨before, after, hsplit⟩ := List.append_of_mem htask
  obtain ⟨tasks, proofreader⟩ := batch
  obtain rfl := hsplit
  exact ⟨_, .turn before after proofreader hsites⟩

theorem exists_finished (batch : Batch) :
    ∃ last, Relation.ReflTransGen Step batch last ∧ last.Finished := by
  induction batch using wellFounded_step.induction with
  | _ batch ih =>
      by_cases hfinished : batch.Finished
      · exact ⟨batch, .refl, hfinished⟩
      · obtain ⟨next, hstep⟩ := exists_step hfinished
        obtain ⟨last, hrun, hlast⟩ := ih next hstep
        exact ⟨last, .head hstep hrun, hlast⟩

section Sequence

/-! One text after the other is one of the orders in which the steps can be made. -/

theorem run_site (before after : List Task) (proofreader : Proofreader) {task : Task}
    {site : Site} {sites : List Site} (hsites : task.sites = site :: sites)
    (hmissed : task.missed = false) :
    let answer := proofreader.candidates (proofreader.queryAt site)
    Relation.ReflTransGen Step ⟨before ++ task :: after, proofreader⟩
      ⟨before ++ task.settle site sites answer.1 :: after, answer.2⟩ := by
  intro answer
  have hstep := Step.turn before after proofreader (hsites ▸ List.cons_ne_nil site sites)
  have hturn := proofreader.turn_step hsites
  generalize proofreader.step task = next at hstep hturn
  cases hturn with
  | skip _ closed =>
      simp only [answer, candidates_of_not_isOpen closed]
      exact .single hstep
  | hit _ isOpen known =>
      simp only [answer, candidates_of_isOpen isOpen]
      rcases proofreader.advisor.memo.ask_cases proofreader.rank (proofreader.queryAt site) with
        ⟨value, hvalue, hask⟩ | ⟨hnone, -⟩
      · obtain rfl := Option.some.inj (known.symm.trans hvalue)
        rw [hask]
        exact .single hstep
      · rw [known] at hnone
        cases hnone
  | miss _ isOpen unknown =>
      simp only [answer, candidates_of_isOpen isOpen]
      rcases proofreader.advisor.memo.ask_cases proofreader.rank (proofreader.queryAt site) with
        ⟨value, hvalue, -⟩ | ⟨-, hask⟩
      · rw [unknown] at hvalue
        cases hvalue
      · -- what `ask` does at once takes two steps, and the others may come in between
        let missed : Task := { task with missed := true }
        have hagain : missed.sites = site :: sites := hsites
        have hput := Step.turn before after
          (proofreader.withMemo (proofreader.advisor.memo.look (proofreader.queryAt site)).2)
          (hagain ▸ List.cons_ne_nil site sites)
        rw [step_of_missed _ missed hagain rfl] at hput
        rw [hask]
        exact (Relation.ReflTransGen.single hstep).tail hput
  | put missed =>
      rw [hmissed] at missed
      cases missed

theorem run_editsFor (before after : List Task) (proofreader : Proofreader) (text : String)
    (sites : List Site) (edits : List Edit) :
    let answer := proofreader.editsFor sites
    Relation.ReflTransGen Step ⟨before ++ { text, sites, edits } :: after, proofreader⟩
      ⟨before ++ { text, sites := [], edits := edits ++ answer.1 } :: after, answer.2⟩ := by
  induction sites generalizing edits proofreader with
  | nil => simpa [editsFor] using Relation.ReflTransGen.refl
  | cons site sites ih =>
      let answer := proofreader.suggest site.word site.role
      have hsite : Relation.ReflTransGen Step
          ⟨before ++ { text, sites := site :: sites, edits } :: after, proofreader⟩
          ⟨before ++ { text, sites, edits := edits ++ (answer.1.map (Edit.mk site)).toList } ::
            after, answer.2⟩ :=
        run_site before after proofreader rfl rfl
      have hrest := ih answer.2 (edits ++ (answer.1.map (Edit.mk site)).toList)
      simp only [List.append_assoc] at hrest
      exact hsite.trans hrest

theorem run_revise (before after : List Task) (proofreader : Proofreader) (text : String) :
    ∃ task : Task, task.sites = [] ∧
      Relation.ReflTransGen Step ⟨before ++ proofreader.begin text :: after, proofreader⟩
        ⟨before ++ task :: after, (proofreader.revise text).2⟩ := by
  by_cases hdefers : proofreader.defers text = true
  · rw [begin, revise, if_pos hdefers, if_pos hdefers]
    exact ⟨{ text, sites := [] }, rfl, .refl⟩
  · rw [begin, revise, if_neg hdefers, if_neg hdefers]
    exact ⟨_, rfl, run_editsFor before after proofreader text (Site.scan text) []⟩

theorem run_texts {proofreader : Proofreader} {rules : Rules} (h : proofreader.Follows rules)
    (before : List Task) (texts : List String) :
    ∃ tasks : List Task, Finished ⟨tasks, (proofreader.reviseAll texts).2⟩ ∧
      Relation.ReflTransGen Step ⟨before ++ texts.map proofreader.begin, proofreader⟩
        ⟨before ++ tasks, (proofreader.reviseAll texts).2⟩ := by
  induction texts generalizing before proofreader with
  | nil => exact ⟨[], fun task htask => absurd htask List.not_mem_nil, .refl⟩
  | cons text texts ih =>
      obtain ⟨task, htask, hfirst⟩ :=
        run_revise before (texts.map proofreader.begin) proofreader text
      obtain ⟨tasks, htasks, hrest⟩ := ih (h.revise text).2 (before ++ [task])
      -- the other texts have begun before, but what they begin with is the same
      rw [(h.revise text).2.begin_eq, ← h.begin_eq, List.append_assoc, List.append_assoc] at hrest
      exact ⟨task :: tasks, List.forall_mem_cons.mpr ⟨htask, htasks⟩, hfirst.trans hrest⟩

theorem run_reviseAll {proofreader : Proofreader} {rules : Rules} (h : proofreader.Follows rules)
    (texts : List String) :
    ∃ last : Batch, Relation.ReflTransGen Step (start proofreader texts) last ∧ last.Finished ∧
      last.proofreader = (proofreader.reviseAll texts).2 := by
  obtain ⟨tasks, hfinished, hrun⟩ := run_texts h [] texts
  exact ⟨_, hrun, hfinished, rfl⟩

end Sequence

end Batch

/-- The texts of a batch may take their steps in any order. Whatever has been done, the proofreader
is in a state that is reachable, and the batch can go on to an end. There the revisions are those
of one text after the other, and as many words have been looked up. -/
theorem batch_eq_reviseAll {proofreader : Proofreader} (reached : proofreader.Reachable)
    (texts : List String) {last : Batch}
    (run : Relation.ReflTransGen Batch.Step (Batch.start proofreader texts) last) :
    last.proofreader.Reachable ∧
    (∃ final, Relation.ReflTransGen Batch.Step last final ∧ final.Finished) ∧
    (last.Finished →
      last.revisions = (proofreader.reviseAll texts).1 ∧
      last.proofreader.stats.hits + last.proofreader.stats.misses =
        (proofreader.reviseAll texts).2.stats.hits +
          (proofreader.reviseAll texts).2.stats.misses) := by
  obtain ⟨rules, -, h, -⟩ := reached.follows
  have hstart := Batch.sound_start h reached texts
  obtain ⟨hlast, htexts, hlookups⟩ := Batch.sound_run run hstart
  refine ⟨hlast.reachable, last.exists_finished, ?_⟩
  intro finished
  have htasks : (Batch.start proofreader texts).tasks.map Task.text = texts := by
    rw [Batch.start, h.begin_eq, List.map_map]
    exact List.map_id _
  refine ⟨?_, ?_⟩
  · rw [hlast.revisions_eq finished, htexts, htasks, (h.reviseAll texts).1]
  · obtain ⟨sequence, hrun, hfinished, hsequence⟩ := Batch.run_reviseAll h texts
    obtain ⟨-, -, hcounts⟩ := Batch.sound_run hrun hstart
    rw [Batch.lookups_of_finished finished] at hlookups
    rw [Batch.lookups_of_finished hfinished, hsequence] at hcounts
    exact hlookups.trans hcounts.symm

end Proofreader

end Respell
