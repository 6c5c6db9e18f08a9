import Mathlib.Data.List.Induction
import Mathlib.Logic.ExistsUnique
import Respell.Lexicon.Standard
import Respell.Proofs.Fallible

/-! # What a lexicon records of its draft -/

namespace Respell.Lexicon

theorem eraseDups_append_singleton {α : Type} [DecidableEq α] (xs : List α) (a : α) :
    (xs ++ [a]).eraseDups = if a ∈ xs then xs.eraseDups else xs.eraseDups ++ [a] := by
  rw [List.eraseDups_append]
  by_cases ha : a ∈ xs
  · have hnone : [a].removeAll xs = [] := by simp [List.removeAll, ha]
    rw [hnone, if_pos ha, List.eraseDups_nil, List.append_nil]
  · have hsame : [a].removeAll xs = [a] := by simp [List.removeAll, ha]
    rw [hsame, if_neg ha]
    rfl

theorem nodup_eraseDups {α : Type} [DecidableEq α] (xs : List α) : xs.eraseDups.Nodup := by
  induction xs using List.reverseRecOn with
  | nil => exact List.nodup_nil
  | append_singleton xs a ih =>
      rw [eraseDups_append_singleton]
      split
      · exact ih
      · rename_i ha
        rw [List.nodup_append]
        refine ⟨ih, List.pairwise_singleton _ a, ?_⟩
        rintro b hb c hc rfl
        rw [List.mem_eraseDups] at hb
        exact ha (List.mem_singleton.mp hc ▸ hb)

def enroll (lexicon : Lexicon) (word : String) (role : Role) : Lexicon :=
  let add (home : Role) (pool : List String) := if role = home then pool ++ [word] else pool
  { lexicon with
    words := lexicon.words ++ [word]
    keywords := add .keyword lexicon.keywords
    builtins := add .function lexicon.builtins
    methods := add .method lexicon.methods
    folded := lexicon.folded ++ [Text.lower word] }

theorem addToPool_first (lexicon : Lexicon) (tags : List (String × WordClass)) (word : String)
    (kind : WordClass) :
    (({ lexicon with tags := tags } : Lexicon).addToPool word kind
        (kind.role = .method)).addToWords word =
      { lexicon.enroll word kind.role with tags := tags } := by
  cases kind <;> rfl

/-- Only methods have several classes, so a word that has one already is in its pool. -/
theorem addToPool_again {lexicon : Lexicon} {known : List WordClass} {kind earlier : WordClass}
    (hfresh : kind ∉ known) (hroles : ∀ other ∈ known, other.role = kind.role)
    (hearlier : earlier ∈ known) (word : String) :
    lexicon.addToPool word kind
      (kind.role = .method && !known.any fun existing => existing.role = .method) = lexicon := by
  have hrole := hroles earlier hearlier
  have hne : earlier ≠ kind := fun heq => hfresh (heq ▸ hearlier)
  cases kind with
  | keyword | builtin => cases earlier <;> simp [WordClass.role] at hrole hne
  | arrayMethod | stringMethod | objectMethod =>
      have hany : (known.any fun existing => existing.role = .method) = true := by
        rw [List.any_eq_true]
        exact ⟨earlier, hearlier, decide_eq_true hrole⟩
      simp [addToPool, hany]

/-- An entry that is accepted is there already, or adds a class to a word that may be new. -/
theorem register_ok_cases {lexicon next : Lexicon} {word : String} {kind : WordClass}
    (h : register lexicon (word, kind) = .ok next) :
    word ≠ "" ∧
      ((kind ∈ lexicon.classes word ∧ next = lexicon) ∨
        (kind ∉ lexicon.classes word ∧ (∀ known ∈ lexicon.classes word, known.role = kind.role) ∧
          next = { (if (lexicon.classes word).isEmpty then lexicon.enroll word kind.role
            else lexicon) with tags := lexicon.tags ++ [(word, kind)] })) := by
  simp only [register] at h
  split at h
  · simp at h
  · rename_i hword
    refine ⟨hword, ?_⟩
    split at h
    · rename_i hknown
      exact Or.inl ⟨by simpa using hknown, (Except.ok.inj h).symm⟩
    · rename_i hknown
      split at h
      · simp at h
      · rename_i hconflict
        have hfresh : kind ∉ lexicon.classes word := by simpa using hknown
        have hroles : ∀ known ∈ lexicon.classes word, known.role = kind.role := by
          intro known hmem
          simpa using List.find?_eq_none.mp hconflict known hmem
        refine Or.inr ⟨hfresh, hroles, ?_⟩
        rw [← Except.ok.inj h]
        cases hclasses : lexicon.classes word with
        | nil => simpa using addToPool_first lexicon _ word kind
        | cons earlier others =>
            rw [hclasses] at hfresh hroles
            simpa using addToPool_again hfresh hroles List.mem_cons_self word

theorem reserved_register {lexicon next : Lexicon} {entry : String × WordClass}
    (h : register lexicon entry = .ok next) : next.reserved = lexicon.reserved := by
  obtain ⟨-, ⟨-, rfl⟩ | ⟨-, -, rfl⟩⟩ := register_ok_cases h
  · rfl
  · split <;> rfl

theorem reserve_ok {lexicon next : Lexicon} {name : String}
    (h : reserve lexicon name = .ok next) :
    lexicon.firstClass? name = none ∧
      next = if lexicon.reserved.contains name then lexicon
        else { lexicon with reserved := lexicon.reserved ++ [name] } := by
  unfold reserve at h
  split at h
  · simp at h
  · rename_i hfree
    exact ⟨hfree, (Except.ok.inj h).symm⟩

/-- The classes that a word has among some entries, with repetitions. -/
def classesIn (entries : List (String × WordClass)) (word : String) : List WordClass :=
  (entries.filter fun entry => entry.1 = word).map Prod.snd

theorem classesIn_append_singleton (entries : List (String × WordClass)) (new word : String)
    (kind : WordClass) :
    classesIn (entries ++ [(new, kind)]) word =
      if new = word then classesIn entries word ++ [kind] else classesIn entries word := by
  unfold classesIn
  by_cases hnew : new = word <;> simp [hnew]

theorem mem_classesIn {entries : List (String × WordClass)} {word : String} {kind : WordClass} :
    kind ∈ classesIn entries word ↔ (word, kind) ∈ entries := by
  simp [classesIn]

theorem classesIn_eq_nil_iff {entries : List (String × WordClass)} {word : String} :
    classesIn entries word = [] ↔ word ∉ entries.map Prod.fst := by
  simp only [classesIn, List.map_eq_nil_iff, List.filter_eq_nil_iff, List.mem_map, not_exists,
    not_and, decide_eq_true_eq]

/-- Words of a role that is not `general`, told by their classes. -/
def hasRole (lexicon : Lexicon) (role : Role) (word : String) : Bool :=
  (lexicon.classes word).any fun kind => kind.role = role

/-- The lexicon holds the words and the classes of some entries once each and in order, and its
pools follow from them. -/
structure Records (lexicon : Lexicon) (entries : List (String × WordClass)) : Prop where
  words : lexicon.words = (entries.map Prod.fst).eraseDups
  classes : ∀ word, lexicon.classes word = (classesIn entries word).eraseDups
  pools : ∀ role, role ≠ .general →
    lexicon.pool role = lexicon.words.filter (lexicon.hasRole role)
  oneRole : ∀ word, ∀ kind ∈ lexicon.classes word, ∀ other ∈ lexicon.classes word,
    kind.role = other.role
  folded : lexicon.folded = lexicon.words.map Text.lower
  spelt : "" ∉ lexicon.words

theorem records_empty : ({} : Lexicon).Records [] where
  words := rfl
  classes _ := rfl
  pools role _ := by cases role <;> rfl
  oneRole _ _ hkind := absurd hkind List.not_mem_nil
  folded := rfl
  spelt := List.not_mem_nil

namespace Records

variable {lexicon : Lexicon} {entries : List (String × WordClass)} (h : lexicon.Records entries)

include h

theorem mem_words {word : String} : word ∈ lexicon.words ↔ word ∈ entries.map Prod.fst := by
  rw [h.words, List.mem_eraseDups]

theorem mem_classes {word : String} {kind : WordClass} :
    kind ∈ lexicon.classes word ↔ (word, kind) ∈ entries := by
  rw [h.classes, List.mem_eraseDups, mem_classesIn]

theorem classes_eq_nil_iff {word : String} :
    lexicon.classes word = [] ↔ word ∉ lexicon.words := by
  rw [h.mem_words, ← classesIn_eq_nil_iff, h.classes]
  constructor
  · intro hnil
    apply List.eq_nil_iff_forall_not_mem.mpr
    intro kind hkind
    rw [← List.mem_eraseDups, hnil] at hkind
    simp at hkind
  · intro hnil
    rw [hnil]
    rfl

end Records

private theorem classes_addTag {lexicon next : Lexicon} {new : String} {kind : WordClass}
    (htags : next.tags = lexicon.tags ++ [(new, kind)]) (word : String) :
    next.classes word =
      if new = word then lexicon.classes word ++ [kind] else lexicon.classes word := by
  unfold Lexicon.classes
  rw [htags]
  by_cases hnew : new = word <;> simp [hnew]

private theorem hasRole_addTag {lexicon next : Lexicon} {new : String} {kind : WordClass}
    (htags : next.tags = lexicon.tags ++ [(new, kind)]) (role : Role) (word : String) :
    next.hasRole role word =
      (lexicon.hasRole role word || (decide (new = word) && decide (kind.role = role))) := by
  rw [hasRole, classes_addTag htags]
  by_cases hnew : new = word <;> simp [hasRole, hnew]

private theorem pool_enroll (lexicon : Lexicon) (new : String) {home role : Role}
    (hrole : role ≠ .general) (tags : List (String × WordClass)) :
    ({ lexicon.enroll new home with tags := tags } : Lexicon).pool role =
      lexicon.pool role ++ if home = role then [new] else [] := by
  cases role with
  | method | function | keyword =>
      simp only [pool, enroll]
      split <;> simp
  | general => exact absurd rfl hrole

section Enter

variable {lexicon : Lexicon} {entries : List (String × WordClass)} (h : lexicon.Records entries)
  {new : String} {kind : WordClass}

include h

private theorem classes_enter {next : Lexicon}
    (htags : next.tags = lexicon.tags ++ [(new, kind)]) (hfresh : kind ∉ lexicon.classes new)
    (word : String) :
    next.classes word = (classesIn (entries ++ [(new, kind)]) word).eraseDups := by
  rw [classes_addTag htags, classesIn_append_singleton, h.classes word]
  by_cases hnew : new = word
  · subst hnew
    have hout : kind ∉ classesIn entries new := by
      rwa [mem_classesIn, ← h.mem_classes]
    rw [if_pos rfl, if_pos rfl, eraseDups_append_singleton, if_neg hout]
  · rw [if_neg hnew, if_neg hnew]

private theorem oneRole_enter {next : Lexicon}
    (htags : next.tags = lexicon.tags ++ [(new, kind)])
    (hroles : ∀ known ∈ lexicon.classes new, known.role = kind.role) (word : String) :
    ∀ one ∈ next.classes word, ∀ other ∈ next.classes word, one.role = other.role := by
  rw [classes_addTag htags]
  by_cases hnew : new = word
  · subst hnew
    have hall : ∀ one ∈ lexicon.classes new ++ [kind], one.role = kind.role := by
      intro one hone
      rcases List.mem_append.mp hone with hmem | hmem
      · exact hroles one hmem
      · rw [List.mem_singleton.mp hmem]
    rw [if_pos rfl]
    intro one hone other hother
    rw [hall one hone, hall other hother]
  · rw [if_neg hnew]
    exact h.oneRole word

theorem Records.again (hknown : (new, kind) ∈ entries) :
    lexicon.Records (entries ++ [(new, kind)]) where
  words := by
    have hmem : new ∈ entries.map Prod.fst := List.mem_map_of_mem hknown
    rw [List.map_append, List.map_singleton, eraseDups_append_singleton, if_pos hmem, h.words]
  classes word := by
    rw [classesIn_append_singleton, h.classes word]
    by_cases hnew : new = word
    · subst hnew
      rw [if_pos rfl, eraseDups_append_singleton, if_pos (mem_classesIn.mpr hknown)]
    · rw [if_neg hnew]
  pools := h.pools
  oneRole := h.oneRole
  folded := h.folded
  spelt := h.spelt

theorem Records.addClass {next : Lexicon}
    (hnext : next = { lexicon with tags := lexicon.tags ++ [(new, kind)] })
    (hfresh : kind ∉ lexicon.classes new)
    (hroles : ∀ known ∈ lexicon.classes new, known.role = kind.role)
    (hold : lexicon.classes new ≠ []) : next.Records (entries ++ [(new, kind)]) := by
  have htags : next.tags = lexicon.tags ++ [(new, kind)] := by rw [hnext]
  have hwords : next.words = lexicon.words := by rw [hnext]
  have hfolded : next.folded = lexicon.folded := by rw [hnext]
  have hpool : ∀ role, next.pool role = lexicon.pool role := by
    intro role
    rw [hnext]
    cases role <;> rfl
  have hmem : new ∈ lexicon.words :=
    Classical.byContradiction fun hout => hold (h.classes_eq_nil_iff.mpr hout)
  refine ⟨?_, classes_enter h htags hfresh, ?_, oneRole_enter h htags hroles, ?_, ?_⟩
  · rw [List.map_append, List.map_singleton, eraseDups_append_singleton,
      if_pos (h.mem_words.mp hmem), hwords, h.words]
  · intro role hrole
    rw [hpool, h.pools role hrole, hwords]
    apply List.filter_congr
    intro word _
    rw [hasRole_addTag htags, Bool.eq_iff_iff]
    constructor
    · intro hword
      rw [hword, Bool.true_or]
    · intro hword
      simp only [Bool.or_eq_true, Bool.and_eq_true, decide_eq_true_eq] at hword
      -- one more class adds no role to a word that has a class already
      rcases hword with hword | ⟨rfl, hkind⟩
      · exact hword
      · obtain ⟨known, hknown⟩ := List.exists_mem_of_ne_nil _ hold
        rw [hasRole, List.any_eq_true]
        exact ⟨known, hknown, by simp [hroles known hknown, hkind]⟩
  · rw [hfolded, hwords, h.folded]
  · rw [hwords]
    exact h.spelt

theorem Records.enroll {next : Lexicon}
    (hnext : next =
      { lexicon.enroll new kind.role with tags := lexicon.tags ++ [(new, kind)] })
    (hspelt : new ≠ "") (hnew : lexicon.classes new = []) :
    next.Records (entries ++ [(new, kind)]) := by
  have htags : next.tags = lexicon.tags ++ [(new, kind)] := by rw [hnext]
  have hwords : next.words = lexicon.words ++ [new] := by
    rw [hnext]
    rfl
  have hfolded : next.folded = lexicon.folded ++ [Text.lower new] := by
    rw [hnext]
    rfl
  have hout : new ∉ lexicon.words := h.classes_eq_nil_iff.mp hnew
  refine ⟨?_, classes_enter h htags (by simp [hnew]), ?_,
    oneRole_enter h htags (by simp [hnew]), ?_, ?_⟩
  · rw [List.map_append, List.map_singleton, eraseDups_append_singleton,
      if_neg (fun hmem => hout (h.mem_words.mpr hmem)), hwords, h.words]
  · intro role hrole
    have hold : ∀ word ∈ lexicon.words, next.hasRole role word = lexicon.hasRole role word := by
      intro word hword
      have hne : new ≠ word := fun heq => hout (heq ▸ hword)
      simp [hasRole_addTag htags, hne]
    have hlast : next.hasRole role new = decide (kind.role = role) := by
      have hnone : lexicon.hasRole role new = false := by simp [hasRole, hnew]
      simp [hasRole_addTag htags, hnone]
    rw [hnext, pool_enroll lexicon new hrole, h.pools role hrole, ← hnext, hwords,
      List.filter_append, List.filter_congr hold, List.filter_cons, hlast, List.filter_nil]
    simp only [decide_eq_true_eq]
  · rw [hfolded, hwords, h.folded, List.map_append, List.map_singleton]
  · rw [hwords]
    intro hmem
    rcases List.mem_append.mp hmem with hword | hword
    · exact h.spelt hword
    · exact hspelt (List.mem_singleton.mp hword).symm

end Enter

theorem Records.register {lexicon next : Lexicon} {entries : List (String × WordClass)}
    {entry : String × WordClass} (h : lexicon.Records entries)
    (hnext : register lexicon entry = .ok next) : next.Records (entries ++ [entry]) := by
  obtain ⟨new, kind⟩ := entry
  obtain ⟨hspelt, ⟨hknown, rfl⟩ | ⟨hfresh, hroles, rfl⟩⟩ := register_ok_cases hnext
  · exact h.again (h.mem_classes.mp hknown)
  · by_cases hnew : (lexicon.classes new).isEmpty = true
    · rw [if_pos hnew]
      exact h.enroll rfl hspelt (by simpa using hnew)
    · rw [if_neg hnew]
      exact h.addClass rfl hfresh hroles (by simpa using hnew)

theorem Records.setReserved {lexicon : Lexicon} {entries : List (String × WordClass)}
    (h : lexicon.Records entries) (names : List String) :
    ({ lexicon with reserved := names } : Lexicon).Records entries where
  words := h.words
  classes := h.classes
  pools role hrole := by
    have hpool := h.pools role hrole
    cases role <;> exact hpool
  oneRole := h.oneRole
  folded := h.folded
  spelt := h.spelt

theorem foldlM_reserve {lexicon last : Lexicon} {names : List String}
    (hfree : lexicon.reserved = []) (h : names.foldlM reserve lexicon = .ok last) :
    last = { lexicon with reserved := names.eraseDups } ∧
      ∀ name ∈ names, lexicon.classes name = [] := by
  apply foldlM_ok_induction (motive := fun done s =>
    s = { lexicon with reserved := done.eraseDups } ∧ ∀ name ∈ done, lexicon.classes name = []) h
  · refine ⟨?_, by simp⟩
    rw [List.eraseDups_nil, ← hfree]
  · rintro done name s t ⟨rfl, hdone⟩ ht
    obtain ⟨hclass, rfl⟩ := reserve_ok ht
    have hname : lexicon.classes name = [] := List.head?_eq_none_iff.mp hclass
    refine ⟨?_, ?_⟩
    · by_cases hmem : name ∈ done
      · simp [eraseDups_append_singleton, hmem]
      · simp [eraseDups_append_singleton, hmem]
    · intro other hother
      rcases List.mem_append.mp hother with hold | hnew
      · exact hdone other hold
      · rw [List.mem_singleton.mp hnew, hname]

theorem records_of_foldlM {entries : List (String × WordClass)} {lexicon : Lexicon}
    (h : entries.foldlM register {} = .ok lexicon) :
    lexicon.Records entries ∧ lexicon.reserved = [] := by
  apply foldlM_ok_induction (motive := fun done s => s.Records done ∧ s.reserved = []) h
  · exact ⟨records_empty, rfl⟩
  · rintro done entry s t ⟨hs, hfree⟩ ht
    exact ⟨hs.register ht, (reserved_register ht).trans hfree⟩

/-- A lexicon that is made from a draft records its words, and its reserved names are no words. -/
theorem records_of_build {draft : Draft} {lexicon : Lexicon} (h : draft.build = .ok lexicon) :
    lexicon.Records draft.words ∧ lexicon.reserved = draft.reserved.eraseDups ∧
      ∀ name ∈ draft.reserved, lexicon.classes name = [] := by
  obtain ⟨middle, hwords, h⟩ := exists_of_bind_eq_ok h
  obtain ⟨hrecords, hfree⟩ := records_of_foldlM hwords
  obtain ⟨rfl, hnames⟩ := foldlM_reserve hfree h
  exact ⟨hrecords.setReserved _, rfl, hnames⟩

theorem role_ne_general (kind : WordClass) : kind.role ≠ .general := by
  cases kind <;> decide

theorem isKeyword_eq_hasRole (lexicon : Lexicon) :
    lexicon.isKeyword = lexicon.hasRole .keyword := by
  funext word
  rw [isKeyword, hasClass, hasRole, List.contains_eq_any_beq]
  congr 1
  funext kind
  cases kind <;> rfl

theorem isBuiltin_eq_hasRole (lexicon : Lexicon) :
    lexicon.isBuiltin = lexicon.hasRole .function := by
  funext word
  rw [isBuiltin, hasClass, hasRole, List.contains_eq_any_beq]
  congr 1
  funext kind
  cases kind <;> rfl

theorem knows_iff (lexicon : Lexicon) (word : String) :
    lexicon.knows word = true ↔ lexicon.classes word ≠ [] := by
  simp [knows, classes]

namespace Records

variable {lexicon : Lexicon} {entries : List (String × WordClass)} (h : lexicon.Records entries)

include h

theorem knows_iff_mem_words {word : String} :
    lexicon.knows word = true ↔ word ∈ lexicon.words := by
  rw [knows_iff, ne_eq, h.classes_eq_nil_iff, Classical.not_not]

theorem mem_pool_iff {role : Role} (hrole : role ≠ .general) {word : String} :
    word ∈ lexicon.pool role ↔ ∃ kind ∈ lexicon.classes word, kind.role = role := by
  have hword : ∀ kind ∈ lexicon.classes word, word ∈ lexicon.words := by
    intro kind hkind
    rw [h.mem_words]
    exact List.mem_map_of_mem (h.mem_classes.mp hkind)
  rw [h.pools role hrole, List.mem_filter, hasRole, List.any_eq_true]
  constructor
  · rintro ⟨-, kind, hkind, heq⟩
    exact ⟨kind, hkind, by simpa using heq⟩
  · rintro ⟨kind, hkind, heq⟩
    exact ⟨hword kind hkind, kind, hkind, by simpa using heq⟩

theorem existsUnique_pool {word : String} (hword : word ∈ lexicon.words) :
    ∃! role, role ≠ .general ∧ word ∈ lexicon.pool role := by
  have hclasses : lexicon.classes word ≠ [] := by
    rw [← knows_iff, h.knows_iff_mem_words]
    exact hword
  obtain ⟨kind, hkind⟩ := List.exists_mem_of_ne_nil _ hclasses
  have hgeneral := role_ne_general kind
  refine ⟨kind.role, ⟨hgeneral, (h.mem_pool_iff hgeneral).mpr ⟨kind, hkind, rfl⟩⟩, ?_⟩
  rintro role ⟨hrole, hmem⟩
  obtain ⟨other, hother, rfl⟩ := (h.mem_pool_iff hrole).mp hmem
  exact h.oneRole word other hother kind hkind

theorem knowsFolded_iff {word : String} :
    lexicon.knowsFolded word = true ↔ ∃ entry ∈ entries, Text.lower entry.1 = Text.lower word := by
  have hfolded : lexicon.folded.contains (Text.lower word) = true ↔
      ∃ known ∈ lexicon.words, Text.lower known = Text.lower word := by
    rw [h.folded, List.contains_iff_mem, List.mem_map]
  rw [knowsFolded, Bool.or_eq_true, h.knows_iff_mem_words, hfolded]
  constructor
  · rintro (hword | ⟨known, hknown, heq⟩)
    · obtain ⟨entry, hentry, rfl⟩ := List.mem_map.mp (h.mem_words.mp hword)
      exact ⟨entry, hentry, rfl⟩
    · obtain ⟨entry, hentry, rfl⟩ := List.mem_map.mp (h.mem_words.mp hknown)
      exact ⟨entry, hentry, heq⟩
  · rintro ⟨entry, hentry, heq⟩
    exact Or.inr ⟨entry.1, h.mem_words.mpr (List.mem_map_of_mem hentry), heq⟩

end Records

namespace Draft

inductive Step where
  | word (kind : WordClass) (word : String)
  | words (kind : WordClass) (words : List String)
  | reserved (names : List String)
  | clearReserved
  deriving Repr, DecidableEq

def perform (draft : Draft) : Step → Draft
  | .word kind word => draft.addWord kind word
  | .words kind words => draft.addWords kind words
  | .reserved names => draft.addReserved names
  | .clearReserved => draft.clearReserved

/-- The words that a step registers, each with its class. -/
def Step.entries : Step → List (String × WordClass)
  | .word kind name => [(name, kind)]
  | .words kind names => names.map fun name => (name, kind)
  | .reserved _ | .clearReserved => []

theorem words_perform (draft : Draft) (step : Step) :
    (draft.perform step).words = draft.words ++ step.entries := by
  cases step with
  | word kind word => rfl
  | words kind words => rfl
  | reserved names => exact (List.append_nil _).symm
  | clearReserved => exact (List.append_nil _).symm

theorem words_foldl_perform (draft : Draft) (steps : List Step) :
    (steps.foldl perform draft).words = draft.words ++ steps.flatMap Step.entries := by
  induction steps generalizing draft with
  | nil => exact (List.append_nil _).symm
  | cons step steps ih =>
      rw [List.foldl_cons, ih, words_perform, List.flatMap_cons, List.append_assoc]

/-- Whatever steps a draft is written in, from nothing or from the standard words: a lexicon that
is made from it has all words, and all classes of a word, once and in the order of registration.
The other pools divide the words by role, the words are told apart from others in any case of
letters, none is empty and none is reserved. -/
theorem build_pools (start : Draft) (steps : List Step) {lexicon : Lexicon}
    (built : (steps.foldl perform start).build = .ok lexicon) :
    let registered := start.words ++ steps.flatMap Step.entries
    lexicon.pool .general = (registered.map Prod.fst).eraseDups ∧
    lexicon.pool .keyword = (lexicon.pool .general).filter lexicon.isKeyword ∧
    lexicon.pool .function = (lexicon.pool .general).filter lexicon.isBuiltin ∧
    lexicon.pool .method = (lexicon.pool .general).filter lexicon.isMethod ∧
    (∀ word ∈ lexicon.pool .general, ∃! role, role ≠ .general ∧ word ∈ lexicon.pool role) ∧
    (∀ word, lexicon.classes word = (classesIn registered word).eraseDups) ∧
    (∀ word, lexicon.knowsFolded word = true ↔
      ∃ entry ∈ registered, Text.lower entry.1 = Text.lower word) ∧
    "" ∉ lexicon.pool .general ∧
    ∀ name, (lexicon.isReserved name = true ↔ name ∈ (steps.foldl perform start).reserved) ∧
      (lexicon.isReserved name = true → name ∉ registered.map Prod.fst) := by
  intro registered
  obtain ⟨hrecords, hreserved, hfree⟩ := records_of_build built
  rw [words_foldl_perform] at hrecords
  refine ⟨hrecords.words, ?_, ?_, hrecords.pools .method (by decide),
    fun word hword => hrecords.existsUnique_pool hword, hrecords.classes,
    fun word => hrecords.knowsFolded_iff, hrecords.spelt, ?_⟩
  · rw [isKeyword_eq_hasRole]
    exact hrecords.pools .keyword (by decide)
  · rw [isBuiltin_eq_hasRole]
    exact hrecords.pools .function (by decide)
  · intro name
    have hiff : lexicon.isReserved name = true ↔ name ∈ (steps.foldl perform start).reserved := by
      rw [isReserved, hreserved, List.contains_iff_mem, List.mem_eraseDups]
    refine ⟨hiff, ?_⟩
    intro hname
    rw [← hrecords.mem_words]
    exact hrecords.classes_eq_nil_iff.mp (hfree name (hiff.mp hname))

theorem build_pools_push :
    ∃ lexicon, ([.word .arrayMethod "push", .words .builtin ["likho", "Likho", "likho"],
        .reserved ["push"], .clearReserved, .word .stringMethod "push", .reserved ["exit"],
        .word .arrayMethod "push"].foldl perform {}).build = .ok lexicon ∧
      lexicon.pool .general = ["push", "likho", "Likho"] ∧
      lexicon.classes "push" = [.arrayMethod, .stringMethod] := by
  refine ⟨_, rfl, ?_⟩
  have hpools := build_pools {} [.word .arrayMethod "push",
    .words .builtin ["likho", "Likho", "likho"], .reserved ["push"], .clearReserved,
    .word .stringMethod "push", .reserved ["exit"], .word .arrayMethod "push"] rfl
  exact ⟨hpools.1.trans (by decide), (hpools.2.2.2.2.2.1 "push").trans (by decide)⟩

end Draft

end Respell.Lexicon
