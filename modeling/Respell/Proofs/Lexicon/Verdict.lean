import Respell.Proofs.Lexicon.Registration

/-! # Which drafts make a lexicon -/

namespace Respell.Lexicon

/-- The classes that one word may have together. -/
def groups : List (List WordClass) :=
  [[.keyword], [.builtin], [.arrayMethod, .stringMethod, .objectMethod]]

def sameGroup (one other : WordClass) : Bool :=
  groups.any fun group => group.contains one && group.contains other

theorem sameGroup_iff {one other : WordClass} :
    sameGroup one other = true ↔ one.role = other.role := by
  cases one <;> cases other <;> decide

theorem sameGroup_eq_false_iff {one other : WordClass} :
    sameGroup one other = false ↔ one.role ≠ other.role := by
  rw [← Bool.not_eq_true, sameGroup_iff]

/-- What is wrong with an entry after those that were made before it: its word is empty, or has a
class of another group. The latter is told with the first class that the word was given. -/
inductive Offends (done : List (String × WordClass)) : String × WordClass → Error → Prop where
  | empty {kind : WordClass} : Offends done ("", kind) (.emptyWord kind)
  | clash {word : String} {kind earlier first : WordClass} (known : (word, earlier) ∈ done)
      (apart : sameGroup earlier kind = false) (oldest : (classesIn done word).head? = some first) :
      Offends done (word, kind) (.conflict word first kind)

/-- No entry has anything wrong with it. -/
def Faultless (entries : List (String × WordClass)) : Prop :=
  ∀ done entry rest, entries = done ++ entry :: rest → ∀ error, ¬Offends done entry error

theorem not_offends_iff {done : List (String × WordClass)} {entry : String × WordClass} :
    (∀ error, ¬Offends done entry error) ↔
      entry.1 ≠ "" ∧ ∀ earlier ∈ done, earlier.1 = entry.1 →
        sameGroup earlier.2 entry.2 = true := by
  obtain ⟨word, kind⟩ := entry
  constructor
  · intro hnone
    refine ⟨?_, ?_⟩
    · rintro rfl
      exact hnone _ .empty
    · rintro ⟨known, earlier⟩ hearlier rfl
      have hmem : earlier ∈ classesIn done known := mem_classesIn.mpr hearlier
      cases hclasses : classesIn done known with
      | nil => simp [hclasses] at hmem
      | cons first others =>
          apply Bool.not_eq_false _ |>.mp
          intro hapart
          exact hnone _ (.clash hearlier hapart (by rw [hclasses, List.head?_cons]))
  · rintro ⟨hspelt, hgroups⟩ error hoffends
    cases hoffends with
    | empty => exact hspelt rfl
    | clash known apart oldest =>
        rw [hgroups _ known rfl] at apart
        cases apart

theorem faultless_concat {entries : List (String × WordClass)} {entry : String × WordClass} :
    Faultless (entries ++ [entry]) ↔
      Faultless entries ∧ ∀ error, ¬Offends entries entry error := by
  constructor
  · intro h
    refine ⟨?_, h entries entry [] rfl⟩
    rintro done earlier rest rfl
    apply h done earlier (rest ++ [entry])
    simp
  · rintro ⟨hearlier, hlast⟩ done other rest hsplit
    rcases List.eq_nil_or_concat rest with rfl | ⟨rest, last, rfl⟩
    · obtain ⟨rfl, hother⟩ := List.append_inj' hsplit rfl
      obtain rfl := List.cons.inj hother |>.1
      exact hlast
    · apply hearlier done other rest
      have hsplit : entries ++ [entry] = done ++ other :: rest ++ [last] := by simpa using hsplit
      exact (List.append_inj' hsplit rfl).1

/-- Entries are in order if no word is empty and no word has classes of two groups. The order of
the entries does not matter for this. -/
theorem faultless_iff {entries : List (String × WordClass)} :
    Faultless entries ↔
      (∀ entry ∈ entries, entry.1 ≠ "") ∧
        ∀ one ∈ entries, ∀ other ∈ entries, one.1 = other.1 → sameGroup one.2 other.2 = true := by
  induction entries using List.reverseRecOn with
  | nil => simp [Faultless]
  | append_singleton entries entry ih =>
      have hself : sameGroup entry.2 entry.2 = true := sameGroup_iff.mpr rfl
      have hcomm : ∀ one, sameGroup entry.2 one = sameGroup one entry.2 := by
        intro one
        rw [Bool.eq_iff_iff, sameGroup_iff, sameGroup_iff, eq_comm]
      rw [faultless_concat, not_offends_iff, ih]
      simp only [List.mem_append, List.mem_singleton, or_imp, forall_and, forall_eq, hself, hcomm,
        eq_comm (a := entry.1)]
      tauto

section Entries

variable {lexicon : Lexicon} {done : List (String × WordClass)} (h : lexicon.Records done)

include h

theorem Records.firstClass?_eq (word : String) :
    lexicon.firstClass? word = (classesIn done word).head? := by
  rw [firstClass?, h.classes]
  cases classesIn done word with
  | nil => rfl
  | cons first others => rw [List.eraseDups_cons, List.head?_cons, List.head?_cons]

theorem Records.find?_clash {word : String} {kind : WordClass} {earlier : WordClass}
    (hearlier : earlier ∈ lexicon.classes word) (hapart : earlier.role ≠ kind.role) :
    (lexicon.classes word).find? (fun existing => existing.role ≠ kind.role) =
      lexicon.firstClass? word := by
  have hroles := h.oneRole word earlier hearlier
  rw [firstClass?]
  cases hclasses : lexicon.classes word with
  | nil => rfl
  | cons first others =>
      have hfirst : earlier.role = first.role := hroles first (by simp [hclasses])
      rw [List.find?_cons_of_pos (by simpa [← hfirst] using hapart), List.head?_cons]

/-- An entry is refused exactly if something is wrong with it after those made before. -/
theorem Records.register_eq_error_iff {entry : String × WordClass} {error : Error} :
    Lexicon.register lexicon entry = .error error ↔ Offends done entry error := by
  obtain ⟨word, kind⟩ := entry
  simp only [Lexicon.register]
  constructor
  · intro hrefused
    split at hrefused
    · rename_i hword
      subst hword
      obtain rfl := Except.error.inj hrefused
      exact .empty
    · split at hrefused
      · cases hrefused
      · split at hrefused
        · rename_i existing hfind
          obtain rfl := Except.error.inj hrefused
          have hmem := List.mem_of_find?_eq_some hfind
          have hapart : existing.role ≠ kind.role := by simpa using List.find?_some hfind
          apply Offends.clash (h.mem_classes.mp hmem) (sameGroup_eq_false_iff.mpr hapart)
          rw [← h.firstClass?_eq, ← h.find?_clash hmem hapart, hfind]
        · cases hrefused
  · intro hoffends
    cases hoffends with
    | empty => rw [if_pos rfl]
    | @clash _ _ earlier first known apart oldest =>
        have hmem := h.mem_classes.mpr known
        have hapart := sameGroup_eq_false_iff.mp apart
        have hspelt : word ≠ "" := by
          rintro rfl
          apply h.spelt
          rw [h.mem_words]
          exact List.mem_map_of_mem known
        have hfresh : (lexicon.classes word).contains kind = false := by
          rw [← Bool.not_eq_true, List.contains_iff_mem]
          intro hknown
          exact hapart (h.oneRole word earlier hmem kind hknown)
        rw [if_neg hspelt, hfresh, if_neg Bool.false_ne_true, h.find?_clash hmem hapart,
          h.firstClass?_eq, oldest]

end Entries

theorem foldlM_register_ok_iff {entries : List (String × WordClass)} :
    (∃ lexicon, entries.foldlM register {} = .ok lexicon) ↔ Faultless entries := by
  constructor
  · rintro ⟨lexicon, hok⟩ done entry rest rfl error hoffends
    rw [List.foldlM_append] at hok
    obtain ⟨middle, hdone, hok⟩ := exists_of_bind_eq_ok hok
    rw [List.foldlM_cons] at hok
    obtain ⟨next, hentry, -⟩ := exists_of_bind_eq_ok hok
    rw [(records_of_foldlM hdone).1.register_eq_error_iff.mpr hoffends] at hentry
    cases hentry
  · intro hfaultless
    cases hresult : entries.foldlM register ({} : Lexicon) with
    | ok lexicon => exact ⟨lexicon, rfl⟩
    | error cause =>
        obtain ⟨done, entry, rest, rfl, middle, hdone, hentry⟩ := foldlM_eq_error_iff.mp hresult
        have hoffends := (records_of_foldlM hdone).1.register_eq_error_iff.mp hentry
        exact absurd hoffends (hfaultless done entry rest rfl cause)

theorem foldlM_register_error_iff {entries : List (String × WordClass)} {error : Error} :
    entries.foldlM register {} = .error error ↔
      ∃ done entry rest, entries = done ++ entry :: rest ∧ Faultless done ∧
        Offends done entry error := by
  rw [foldlM_eq_error_iff]
  constructor
  · rintro ⟨done, entry, rest, hsplit, middle, hdone, hentry⟩
    exact ⟨done, entry, rest, hsplit, foldlM_register_ok_iff.mp ⟨middle, hdone⟩,
      (records_of_foldlM hdone).1.register_eq_error_iff.mp hentry⟩
  · rintro ⟨done, entry, rest, hsplit, hfaultless, hoffends⟩
    obtain ⟨middle, hdone⟩ := foldlM_register_ok_iff.mpr hfaultless
    exact ⟨done, entry, rest, hsplit, middle, hdone,
      (records_of_foldlM hdone).1.register_eq_error_iff.mpr hoffends⟩

theorem reserve_eq_error_iff {lexicon : Lexicon} {name : String} {error : Error} :
    reserve lexicon name = .error error ↔
      ∃ kind, lexicon.firstClass? name = some kind ∧ error = .reservedWord name kind := by
  unfold reserve
  cases lexicon.firstClass? name with
  | none => simp
  | some kind => simp [eq_comm]

section Names

variable {lexicon : Lexicon} (hfree : lexicon.reserved = []) {names : List String}

include hfree

theorem foldlM_reserve_ok_iff :
    (∃ last, names.foldlM reserve lexicon = .ok last) ↔
      ∀ name ∈ names, lexicon.classes name = [] := by
  constructor
  · rintro ⟨last, hok⟩
    exact (foldlM_reserve hfree hok).2
  · intro hnames
    cases hresult : names.foldlM reserve lexicon with
    | ok last => exact ⟨last, rfl⟩
    | error cause =>
        obtain ⟨done, name, rest, rfl, middle, hdone, hname⟩ := foldlM_eq_error_iff.mp hresult
        obtain ⟨rfl, -⟩ := foldlM_reserve hfree hdone
        obtain ⟨kind, hkind, -⟩ := reserve_eq_error_iff.mp hname
        have hnone : lexicon.classes name = [] := hnames name (by simp)
        have hsome : (lexicon.classes name).head? = some kind := hkind
        rw [hnone] at hsome
        cases hsome

theorem foldlM_reserve_error_iff {error : Error} :
    names.foldlM reserve lexicon = .error error ↔
      ∃ done name rest, names = done ++ name :: rest ∧
        (∀ earlier ∈ done, lexicon.classes earlier = []) ∧
        ∃ kind, lexicon.firstClass? name = some kind ∧ error = .reservedWord name kind := by
  rw [foldlM_eq_error_iff]
  constructor
  · rintro ⟨done, name, rest, hsplit, middle, hdone, hname⟩
    obtain ⟨rfl, hearlier⟩ := foldlM_reserve hfree hdone
    have hkind := reserve_eq_error_iff.mp hname
    exact ⟨done, name, rest, hsplit, hearlier, hkind⟩
  · rintro ⟨done, name, rest, hsplit, hearlier, hname⟩
    obtain ⟨middle, hdone⟩ := (foldlM_reserve_ok_iff hfree).mpr hearlier
    obtain ⟨rfl, -⟩ := foldlM_reserve hfree hdone
    exact ⟨done, name, rest, hsplit, _, hdone, reserve_eq_error_iff.mpr hname⟩

end Names

theorem Records.classes_eq_nil_iff_not_mem {lexicon : Lexicon} {entries : List (String × WordClass)}
    (h : lexicon.Records entries) {name : String} :
    lexicon.classes name = [] ↔ name ∉ entries.map Prod.fst := by
  rw [h.classes_eq_nil_iff, h.mem_words]

namespace Draft

theorem build_ok_iff (draft : Draft) :
    (∃ lexicon, draft.build = .ok lexicon) ↔
      Faultless draft.words ∧ ∀ name ∈ draft.reserved, name ∉ draft.words.map Prod.fst := by
  constructor
  · rintro ⟨lexicon, hok⟩
    obtain ⟨middle, hwords, hnames⟩ := exists_of_bind_eq_ok hok
    obtain ⟨hrecords, hfree⟩ := records_of_foldlM hwords
    refine ⟨foldlM_register_ok_iff.mp ⟨middle, hwords⟩, ?_⟩
    intro name hname
    rw [← hrecords.classes_eq_nil_iff_not_mem]
    exact (foldlM_reserve hfree hnames).2 name hname
  · rintro ⟨hfaultless, hnames⟩
    obtain ⟨middle, hwords⟩ := foldlM_register_ok_iff.mpr hfaultless
    obtain ⟨hrecords, hfree⟩ := records_of_foldlM hwords
    obtain ⟨last, hlast⟩ : ∃ last, draft.reserved.foldlM reserve middle = .ok last := by
      apply (foldlM_reserve_ok_iff hfree).mpr
      intro name hname
      exact hrecords.classes_eq_nil_iff_not_mem.mpr (hnames name hname)
    refine ⟨last, ?_⟩
    rw [build, hwords]
    exact hlast

theorem build_error_iff (draft : Draft) (error : Error) :
    draft.build = .error error ↔
      (∃ done entry rest, draft.words = done ++ entry :: rest ∧ Faultless done ∧
        Offends done entry error) ∨
      Faultless draft.words ∧
        ∃ done name rest, draft.reserved = done ++ name :: rest ∧
          (∀ earlier ∈ done, earlier ∉ draft.words.map Prod.fst) ∧
          ∃ kind, (classesIn draft.words name).head? = some kind ∧
            error = .reservedWord name kind := by
  have hnames : ∀ middle, draft.words.foldlM register {} = .ok middle →
      (draft.reserved.foldlM reserve middle = .error error ↔
        ∃ done name rest, draft.reserved = done ++ name :: rest ∧
          (∀ earlier ∈ done, earlier ∉ draft.words.map Prod.fst) ∧
          ∃ kind, (classesIn draft.words name).head? = some kind ∧
            error = .reservedWord name kind) := by
    intro middle hwords
    obtain ⟨hrecords, hfree⟩ := records_of_foldlM hwords
    simp only [foldlM_reserve_error_iff hfree, hrecords.classes_eq_nil_iff_not_mem,
      hrecords.firstClass?_eq]
  rw [build, bind_eq_error_iff, foldlM_register_error_iff, ← foldlM_register_ok_iff]
  constructor
  · rintro (hfault | ⟨middle, hwords, hrefused⟩)
    · exact Or.inl hfault
    · exact Or.inr ⟨⟨middle, hwords⟩, (hnames middle hwords).mp hrefused⟩
  · rintro (hfault | ⟨⟨middle, hwords⟩, hrefused⟩)
    · exact Or.inl hfault
    · exact Or.inr ⟨middle, hwords, (hnames middle hwords).mpr hrefused⟩

/-- A draft makes a lexicon if and only if no word is empty, no word is in two of the groups and no
reserved name is a word, so drafts with the same entries in another order make one as well. If it
fails, the error is that of the first entry that is empty or clashes with one before it, and if
there is none, that of the first reserved name which is a word, with the first class of the word. -/
theorem build_verdict (draft : Draft) :
    ((∃ lexicon, draft.build = .ok lexicon) ↔
      (∀ entry ∈ draft.words, entry.1 ≠ "") ∧
      (∀ one ∈ draft.words, ∀ other ∈ draft.words, one.1 = other.1 →
        sameGroup one.2 other.2 = true) ∧
      ∀ name ∈ draft.reserved, name ∉ draft.words.map Prod.fst) ∧
    (∀ other : Draft, other.words.Perm draft.words → other.reserved.Perm draft.reserved →
      ((∃ lexicon, other.build = .ok lexicon) ↔ ∃ lexicon, draft.build = .ok lexicon)) ∧
    ∀ error, draft.build = .error error ↔
      (∃ done entry rest, draft.words = done ++ entry :: rest ∧ Faultless done ∧
        Offends done entry error) ∨
      Faultless draft.words ∧
        ∃ done name rest, draft.reserved = done ++ name :: rest ∧
          (∀ earlier ∈ done, earlier ∉ draft.words.map Prod.fst) ∧
          ∃ kind, (classesIn draft.words name).head? = some kind ∧
            error = .reservedWord name kind := by
  refine ⟨?_, ?_, draft.build_error_iff⟩
  · rw [build_ok_iff, faultless_iff, and_assoc]
  · intro other hwords hnames
    rw [build_ok_iff, build_ok_iff, faultless_iff, faultless_iff]
    simp only [hwords.mem_iff, hnames.mem_iff, (hwords.map Prod.fst).mem_iff]

end Draft

end Respell.Lexicon
