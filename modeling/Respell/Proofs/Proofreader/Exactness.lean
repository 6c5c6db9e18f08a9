import Respell.Proofs.Edit.Sites
import Respell.Proofs.Proofreader.Memory

namespace Respell

namespace Edit

/-- The changes that none before them in the list makes from the same word to the same
suggestion. -/
def firsts (changes : List Change) : List Change :=
  (changes.zipIdx.filter fun entry =>
    (changes.take entry.2).all fun earlier =>
      (entry.1.word, entry.1.suggestion) ≠ (earlier.word, earlier.suggestion)).map Prod.fst

theorem firsts_cons (change : Change) (changes : List Change) :
    firsts (change :: changes) =
      change :: (firsts changes).filter fun other =>
        (other.word, other.suggestion) ≠ (change.word, change.suggestion) := by
  have hindices : changes.zipIdx 1 = changes.zipIdx.map fun entry => (entry.1, entry.2 + 1) := by
    rw [List.zipIdx_succ]
  unfold firsts
  rw [List.zipIdx_cons, Nat.zero_add, hindices, List.filter_cons_of_pos (by simp), List.map_cons,
    List.filter_map, List.map_map, List.filter_map, List.filter_filter]
  rfl

theorem firstOfEach_eq_firsts (changes : List Change) : firstOfEach changes = firsts changes := by
  induction changes with
  | nil => rfl
  | cons change changes ih => rw [firstOfEach, firsts_cons, ih]

end Edit

namespace Rules

theorem exempts_of_suggestion? {rules : Rules} {word suggestion : String} {role : Role}
    (h : rules.suggestion? word role = some suggestion) : rules.lexicon.exempts word = false := by
  cases hexempts : rules.lexicon.exempts word with
  | false => rfl
  | true => simp [suggestion?, candidates, hexempts] at h

theorem map_site_edits_sublist (rules : Rules) (sites : List Site) :
    ((rules.edits sites).map Edit.site).Sublist sites := by
  induction sites with
  | nil => exact List.Sublist.refl []
  | cons site sites ih =>
      cases hword : rules.suggestion? site.word site.role with
      | none =>
          simp only [edits, List.filterMap_cons, hword, Option.map_none]
          exact ih.cons site
      | some word =>
          simp only [edits, List.filterMap_cons, hword, Option.map_some, List.map_cons]
          exact ih.cons_cons site

theorem exempts_of_mem_edits {rules : Rules} {sites : List Site} {edit : Edit}
    (h : edit ∈ rules.edits sites) : rules.lexicon.exempts edit.site.word = false := by
  obtain ⟨site, -, hedit⟩ := List.mem_filterMap.mp h
  obtain ⟨word, hword, rfl⟩ := Option.map_eq_some_iff.mp hedit
  exact exempts_of_suggestion? hword

end Rules

namespace Proofreader

/-- The word that is written at a site: at a call of a word that is not exempt, the best one that
the advisor has. -/
def accepted? (proofreader : Proofreader) (site : Site) : Option String :=
  if site.isCall && !proofreader.lexicon.exempts site.word then
    (proofreader.advisor.consult
      ⟨site.word, site.role, proofreader.settings.maxSuggestions⟩).1.head?.map (·.word)
  else none

/-- The edits at the sites of a text where a word is accepted. -/
def rewrites (proofreader : Proofreader) (text : String) : List Edit :=
  (Site.scan text).filterMap fun site => (proofreader.accepted? site).map (Edit.mk site)

theorem Follows.accepted? {proofreader : Proofreader} {rules : Rules}
    (h : proofreader.Follows rules) (site : Site) :
    proofreader.accepted? site =
      if site.isCall then rules.suggestion? site.word site.role else none := by
  obtain ⟨hreply, -⟩ :=
    h.candidates ⟨site.word, site.role, proofreader.settings.maxSuggestions⟩
  unfold Proofreader.accepted? Rules.suggestion?
  rw [← h.settings, ← hreply]
  unfold Proofreader.candidates
  cases hcall : site.isCall with
  | false => rfl
  | true =>
      by_cases hexempts : proofreader.lexicon.exempts site.word = true
      · simp [hexempts]
      · simp [hexempts]

theorem Follows.rewrites {proofreader : Proofreader} {rules : Rules}
    (h : proofreader.Follows rules) (text : String) :
    proofreader.rewrites text =
      (rules.edits (Site.scan text)).filter fun edit => edit.site.isCall := by
  rw [Rules.edits, List.filter_filterMap]
  unfold Proofreader.rewrites
  congr 1
  funext site
  rw [h.accepted? site]
  cases rules.suggestion? site.word site.role with
  | none => simp
  | some word => cases hcall : site.isCall <;> simp [Option.filter, hcall]

/-- The revision of a text that is not deferred to the console. -/
theorem Follows.revise_eq_weave {proofreader : Proofreader} {rules : Rules}
    (h : proofreader.Follows rules) {text : String} (hdefers : proofreader.defers text = false) :
    (proofreader.revise text).1 =
      { text := String.ofList (Edit.weave (proofreader.rewrites text) 0 text.toList)
        changes := Edit.firstOfEach ((proofreader.rewrites text).map Edit.change) } := by
  rw [h.defers] at hdefers
  rw [(h.revise text).1, Rules.revision, hdefers, h.rewrites]
  exact Edit.applyAll_eq_weave (rules.map_site_edits_sublist _)
    fun edit hedit => Rules.exempts_of_mem_edits hedit

def brief : Proofreader :=
  withLexicon
    { tags := [("likho", .builtin), ("push", .arrayMethod)]
      words := ["likho", "push"]
      builtins := ["likho"]
      methods := ["push"]
      folded := ["likho", "push"] } {} none

theorem reachable_brief : brief.Reachable := by
  let draft : Lexicon.Draft := { words := [("likho", .builtin), ("push", .arrayMethod)] }
  exact Reachable.start (show draft.build = .ok _ from rfl) {} none

end Proofreader

end Respell
