import Mathlib.Data.List.Perm.Subperm
import Respell.Proofs.Lexicon.Registration
import Respell.Proofs.Site.Call

namespace Respell.Lexicon

/-- Every word of a pool is known and one of all words, and all words are among the entries. -/
structure WordsFrom (lexicon : Lexicon) (entries : List (String × WordClass)) : Prop where
  known : ∀ role, ∀ word ∈ lexicon.pool role, lexicon.knows word = true
  listed : ∀ role, ∀ word ∈ lexicon.pool role, word ∈ lexicon.words
  entered : ∀ word ∈ lexicon.words, ∃ kind, (word, kind) ∈ entries

namespace Records

variable {lexicon : Lexicon} {entries : List (String × WordClass)} (h : lexicon.Records entries)

include h

theorem pool_sublist_words (role : Role) : (lexicon.pool role).Sublist lexicon.words := by
  by_cases hrole : role = .general
  · subst hrole
    exact List.Sublist.refl _
  · rw [h.pools role hrole]
    exact List.filter_sublist

theorem pool_subset_words (role : Role) : lexicon.pool role ⊆ lexicon.words :=
  (h.pool_sublist_words role).subset

theorem nodup_pool (role : Role) : (lexicon.pool role).Nodup := by
  have hwords : lexicon.words.Nodup := by
    rw [h.words]
    exact nodup_eraseDups _
  exact hwords.sublist (h.pool_sublist_words role)

theorem length_pool_le (role : Role) : (lexicon.pool role).length ≤ entries.length := by
  have hsubset : lexicon.pool role ⊆ entries.map Prod.fst := by
    intro word hword
    exact h.mem_words.mp (h.pool_subset_words role hword)
  have hlength := (List.subperm_of_subset (h.nodup_pool role) hsubset).length_le
  rwa [List.length_map] at hlength

theorem knowsFolded_iff_mem_words {word : String} :
    lexicon.knowsFolded word = true ↔
      ∃ known ∈ lexicon.words, Text.lower known = Text.lower word := by
  rw [h.knowsFolded_iff]
  constructor
  · rintro ⟨entry, hentry, hsame⟩
    exact ⟨entry.1, h.mem_words.mpr (List.mem_map_of_mem hentry), hsame⟩
  · rintro ⟨known, hknown, hsame⟩
    obtain ⟨entry, hentry, rfl⟩ := List.mem_map.mp (h.mem_words.mp hknown)
    exact ⟨entry, hentry, hsame⟩

/-- A word is exempt if it is reserved or has the lower-case form of a word of the lexicon. -/
theorem exempts_iff {word : String} :
    lexicon.exempts word = true ↔
      lexicon.isReserved word = true ∨
        ∃ known ∈ lexicon.pool .general, Text.lower known = Text.lower word := by
  rw [exempts, Bool.or_eq_true, h.knowsFolded_iff_mem_words]
  rfl

end Records

theorem isReserved_of_mem_pool {draft : Draft} {lexicon : Lexicon}
    (h : draft.build = .ok lexicon) {role : Role} {word : String}
    (hword : word ∈ lexicon.pool role) : lexicon.isReserved word = false := by
  obtain ⟨hrecords, hreserved, hfree⟩ := records_of_build h
  cases hname : lexicon.isReserved word with
  | false => rfl
  | true =>
      rw [isReserved, hreserved, List.contains_iff_mem, List.mem_eraseDups] at hname
      have hout := hrecords.classes_eq_nil_iff.mp (hfree word hname)
      exact absurd (hrecords.pool_subset_words role hword) hout

theorem wordsFrom_of_build {draft : Draft} {lexicon : Lexicon}
    (h : draft.build = .ok lexicon) : lexicon.WordsFrom draft.words := by
  obtain ⟨hrecords, -, -⟩ := records_of_build h
  refine ⟨?_, ?_, ?_⟩
  · intro role word hword
    exact hrecords.knows_iff_mem_words.mpr (hrecords.pool_subset_words role hword)
  · intro role word hword
    exact hrecords.pool_subset_words role hword
  · intro word hword
    obtain ⟨entry, hentry, rfl⟩ := List.mem_map.mp (hrecords.mem_words.mp hword)
    exact ⟨entry.2, hentry⟩

theorem WordsFrom.exempts {lexicon : Lexicon} {entries : List (String × WordClass)}
    (h : lexicon.WordsFrom entries) {role : Role} {word : String}
    (hword : word ∈ lexicon.pool role) : lexicon.exempts word = true := by
  rw [Lexicon.exempts, knowsFolded, h.known role word hword, Bool.true_or, Bool.or_true]

theorem build_standard : Draft.standard.build = .ok standard := by
  have hbuilt : Draft.standard.build.isOk = true := by decide +kernel
  unfold standard
  generalize Draft.standard.build = result at hbuilt ⊢
  cases result with
  | error cause => simp [Except.isOk, Except.toBool] at hbuilt
  | ok lexicon => rfl

theorem isName_standard : ∀ word ∈ standard.words, isName word.toList = true := by
  have hentries : ∀ entry ∈ Draft.standard.words, isName entry.1.toList = true := by
    decide +kernel
  intro word hword
  obtain ⟨kind, hmem⟩ := (wordsFrom_of_build build_standard).entered word hword
  exact hentries (word, kind) hmem

end Respell.Lexicon
