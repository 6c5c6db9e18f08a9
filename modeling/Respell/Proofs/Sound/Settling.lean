import Mathlib.Data.List.Infix
import Respell.Proofs.Sound.Syllables

/-! # Clusters that replacement leaves behind -/

namespace Respell.Sound

open Syllable

-- The characters of a list are tried one after the other, and not all that there are.
scoped instance (priority := 2000) decidableForallChars (P : Char → Prop) [DecidablePred P]
    (cs : List Char) : Decidable (∀ c ∈ cs, P c) := List.decidableBAll P cs

scoped instance (priority := 2000) decidableExistsChars (P : Char → Prop) [DecidablePred P]
    (cs : List Char) : Decidable (∃ c ∈ cs, P c) := List.decidableBEx P cs

theorem clusters_ne_nil : ∀ cluster ∈ clusters, cluster.1.toList ≠ [] ∧ cluster.2.toList ≠ [] := by
  decide

theorem foldl_of_kept {cls : List (String × String)} {cs : List Char}
    (kept : ∀ cluster ∈ cls, replaceCluster cs cluster = cs) :
    cls.foldl replaceCluster cs = cs := by
  induction cls with
  | nil => rfl
  | cons cluster cls ih =>
      obtain ⟨hcluster, hcls⟩ := List.forall_mem_cons.mp kept
      rw [List.foldl_cons, hcluster, ih hcls]

section Foreign

variable {between : List (String × String)} {p : List Char} (known : between ⊆ clusters)
  (long : p ≠ [])

include known long

theorem infix_of_infix_foldl (apart : ∀ cluster ∈ between, ∀ c ∈ p, c ∉ cluster.2.toList)
    {cs : List Char} (h : p <:+: between.foldl replaceCluster cs) : p <:+: cs := by
  induction between generalizing cs with
  | nil => exact h
  | cons cluster between ih =>
      obtain ⟨hcluster, hknown⟩ := List.cons_subset.mp known
      obtain ⟨hfirst, hrest⟩ := List.forall_mem_cons.mp apart
      obtain ⟨hold, hnew⟩ := clusters_ne_nil cluster hcluster
      exact infix_of_infix_replaceFrom hold hnew long hfirst (ih hknown hrest h)

theorem infix_foldl (apart : ∀ cluster ∈ between, ∀ c ∈ p, c ∉ cluster.1.toList)
    {cs : List Char} (h : p <:+: cs) : p <:+: between.foldl replaceCluster cs := by
  induction between generalizing cs with
  | nil => exact h
  | cons cluster between ih =>
      obtain ⟨hcluster, hknown⟩ := List.cons_subset.mp known
      obtain ⟨hfirst, hrest⟩ := List.forall_mem_cons.mp apart
      exact ih hknown hrest
        (infix_replaceFrom (clusters_ne_nil cluster hcluster).1 long hfirst h)

end Foreign

def after (n : Nat) (cs : List Char) : List Char := (clusters.take n).foldl replaceCluster cs

def between (i j : Nat) : List (String × String) := (clusters.take j).drop i

theorem between_subset (i j : Nat) : between i j ⊆ clusters := fun _ h =>
  List.mem_of_mem_take (List.mem_of_mem_drop h)

theorem after_of_le {i j : Nat} (h : i ≤ j) (cs : List Char) :
    after j cs = (between i j).foldl replaceCluster (after i cs) := by
  have htake : (clusters.take j).take i = clusters.take i := by
    rw [List.take_take, Nat.min_eq_left h]
  rw [after, after, ← List.foldl_append, ← htake, between, List.take_append_drop]

theorem after_succ {n : Nat} {cluster : String × String} (h : clusters[n]? = some cluster)
    (cs : List Char) : after (n + 1) cs = replaceCluster (after n cs) cluster := by
  rw [after, List.take_add_one, h, Option.toList_some, List.foldl_append, List.foldl_cons,
    List.foldl_nil]
  rfl

theorem infix_after_iff {i j : Nat} (h : i ≤ j) {p : List Char} (long : p ≠ [])
    (apart : ∀ cluster ∈ between i j, ∀ c ∈ p, c ∉ cluster.1.toList ∧ c ∉ cluster.2.toList)
    (cs : List Char) : p <:+: after j cs ↔ p <:+: after i cs := by
  rw [after_of_le h]
  constructor
  · exact infix_of_infix_foldl (between_subset i j) long
      fun cluster hc c hmem => (apart cluster hc c hmem).2
  · exact infix_foldl (between_subset i j) long
      fun cluster hc c hmem => (apart cluster hc c hmem).1

theorem spell_infix_after_iff {q q' : Syllable}
    (soft : ∀ s : Syllable, s.soften.letter = q.letter ∧ q.breath ≤ s.soften.breath ↔
      s.letter = q'.letter ∧ q'.breath ≤ s.breath) (cs : List Char) :
    spell [q] <:+: after 10 cs ↔ spell [q'] <:+: cs := by
  obtain ⟨lead, ss, rfl⟩ := exists_spell cs
  rw [after, Aspirate.take_clusters, Aspirate.foldl_replaceCluster]
  change spell ([] ++ [q]) <:+: _ ++ spell (ss.map soften) ↔ spell ([] ++ [q']) <:+: _
  rw [spell_infix_iff, spell_infix_iff]
  simp only [List.nil_append, List.singleton_infix_iff, List.mem_map]
  constructor
  · rintro ⟨-, ⟨s, hs, rfl⟩, hq⟩
    exact ⟨s, hs, (soft s).mp hq⟩
  · rintro ⟨s, hs, hq⟩
    exact ⟨s.soften, ⟨s, hs, rfl⟩, (soft s).mpr hq⟩

theorem aspirated_after_iff {l : Char} (h : l ∈ aspirated) (cs : List Char) :
    [l, 'h'] <:+: after 10 cs ↔ [l, 'h', 'h'] <:+: cs := by
  have hl : ∀ l ∈ aspirated, l ≠ 'h' ∧ l ≠ 'p' ∧ l ≠ 'f' := by decide
  obtain ⟨hh, hp, hf⟩ := hl l h
  have hone : [l, 'h'] = spell [⟨l, 1, hh⟩] := rfl
  have htwo : [l, 'h', 'h'] = spell [⟨l, 2, hh⟩] := rfl
  rw [hone, htwo]
  apply spell_infix_after_iff
  intro s
  rw [letter_soften_iff hp hf]
  apply and_congr_right
  intro hs
  rw [soften_aspirated (hs ▸ h)]
  show 1 ≤ s.breath - 1 ↔ 2 ≤ s.breath
  omega

theorem c_after_iff (cs : List Char) :
    ['c', 'h'] <:+: after 10 cs ↔ ['c', 'h', 'h', 'h', 'h'] <:+: cs := by
  have hone : ['c', 'h'] = spell [⟨'c', 1, by decide⟩] := rfl
  have hfour : ['c', 'h', 'h', 'h', 'h'] = spell [⟨'c', 4, by decide⟩] := rfl
  rw [hone, hfour]
  apply spell_infix_after_iff
  intro s
  rw [letter_soften_iff (by decide) (by decide)]
  apply and_congr_right
  intro hs
  rw [soften_c hs]
  show 1 ≤ s.breath - 3 ↔ 4 ≤ s.breath
  omega

theorem z_after_iff (cs : List Char) : ['z', 'h'] <:+: after 10 cs ↔ ['z', 'h'] <:+: cs := by
  have hone : ['z', 'h'] = spell [⟨'z', 1, by decide⟩] := rfl
  rw [hone]
  apply spell_infix_after_iff
  intro s
  rw [letter_soften_iff (by decide) (by decide)]
  apply and_congr_right
  intro hs
  rw [soften_other] <;> rw [hs] <;> decide

theorem hard_after_iff (cs : List Char) :
    ['c', 'c', 'k'] <:+: after 10 cs ↔ ∃ i < 4, ∃ j < 4,
      'c' :: (List.replicate i 'h' ++ 'c' :: (List.replicate j 'h' ++ ['k'])) <:+: cs := by
  obtain ⟨lead, ss, rfl⟩ := exists_spell cs
  rw [after, Aspirate.take_clusters, Aspirate.foldl_replaceCluster]
  let c (n : Nat) : Syllable := ⟨'c', n, by decide⟩
  let k : Syllable := ⟨'k', 0, by decide⟩
  have hc : ∀ s : Syllable, s.soften = c 0 ↔ ∃ i < 4, s = c i := by
    intro s
    constructor
    · intro hs
      have hletter : s.letter = 'c' :=
        (letter_soften_iff (by decide) (by decide)).mp (congrArg Syllable.letter hs)
      have hbreath : s.breath - 3 = 0 := by
        rw [soften_c hletter] at hs
        exact congrArg Syllable.breath hs
      exact ⟨s.breath, by omega, eq_of_letter_breath hletter rfl⟩
    · rintro ⟨i, hi, rfl⟩
      rw [soften_c rfl]
      exact eq_of_letter_breath rfl (Nat.sub_eq_zero_of_le (Nat.le_of_lt_succ hi))
  change spell ([c 0, c 0] ++ [k]) <:+: _ ++ spell (ss.map soften) ↔
    ∃ i < 4, ∃ j < 4, spell ([c i, c j] ++ [k]) <:+: _
  simp only [spell_infix_iff, List.infix_map_iff]
  constructor
  · rintro ⟨u, ⟨run, hrun, heq⟩, hu, -⟩
    obtain ⟨x, run, rfl, hx, heq⟩ := List.map_eq_cons_iff.mp heq.symm
    obtain ⟨y, run, rfl, hy, heq⟩ := List.map_eq_cons_iff.mp heq
    obtain ⟨z, run, rfl, hz, heq⟩ := List.map_eq_cons_iff.mp heq
    obtain rfl := List.map_eq_nil_iff.mp heq
    obtain ⟨i, hi, rfl⟩ := (hc x).mp hx
    obtain ⟨j, hj, rfl⟩ := (hc y).mp hy
    rw [← hz] at hu
    exact ⟨i, hi, j, hj, z, hrun, (letter_soften_iff (by decide) (by decide)).mp hu,
      Nat.zero_le _⟩
  · rintro ⟨i, hi, j, hj, z, hrun, hz, -⟩
    refine ⟨z.soften, ⟨_, hrun, ?_⟩, (letter_soften_iff (by decide) (by decide)).mpr hz,
      Nat.zero_le _⟩
    simp only [List.cons_append, List.nil_append, List.map_cons, List.map_nil,
      (hc (c i)).mpr ⟨i, hi, rfl⟩, (hc (c j)).mpr ⟨j, hj, rfl⟩]

theorem a_after_iff (cs : List Char) : ['a', 'a'] <:+: after 16 cs ↔ ['a', 'a', 'a'] <:+: cs := by
  have hpass : after 12 cs = replaceFrom ['a', 'a'] ['a'] 0 (after 11 cs) :=
    after_succ (show clusters[11]? = some ("aa", "a") from rfl) cs
  rw [infix_after_iff (show 12 ≤ 16 by decide) (by decide) (by decide), hpass,
    infix_pair_replaceFrom, infix_after_iff (Nat.zero_le 11) (by decide) (by decide)]
  rfl

theorem after_k (cs : List Char) : after 11 cs = replaceFrom ['c', 'k'] ['k'] 0 (after 10 cs) :=
  after_succ (show clusters[10]? = some ("ck", "k") from rfl) cs

theorem k_after_iff (cs : List Char) :
    ['c', 'k'] <:+: after 16 cs ↔ ['c', 'c', 'k'] <:+: after 10 cs := by
  rw [infix_after_iff (show 11 ≤ 16 by decide) (by decide) (by decide), after_k,
    infix_pair_replaceFrom]

theorem h_after_iff (cs : List Char) :
    (∃ l ∈ 'c' :: aspirated, [l, 'h'] <:+: after 16 cs) ↔
      ['z', 'h'] <:+: after 10 cs ∨ ∃ l ∈ 'c' :: aspirated, [l, 'h'] <:+: after 10 cs := by
  have hmiddle : ∀ l ∈ 'z' :: 'c' :: aspirated,
      [l, 'h'] <:+: after 15 cs ↔ [l, 'h'] <:+: after 10 cs := by
    have hapart : ∀ l ∈ 'z' :: 'c' :: aspirated, ∀ cluster ∈ between 11 15, ∀ c ∈ [l, 'h'],
      c ∉ cluster.1.toList ∧ c ∉ cluster.2.toList := by decide
    intro l hl
    rw [infix_after_iff (show 11 ≤ 15 by decide) (List.cons_ne_nil l _) (hapart l hl), after_k,
      infix_breath_replaceFrom (by decide) (by decide)]
  have hlast : ∀ l ∈ 'c' :: aspirated, [l, 'h'] <:+: after 16 cs ↔
      [l, 'h'] <:+: after 15 cs ∨ l = 'j' ∧ ['z', 'h'] <:+: after 15 cs := by
    have hpass : after 16 cs = replaceFrom ['z'] ['j'] 0 (after 15 cs) :=
      after_succ (show clusters[15]? = some ("z", "j") from rfl) cs
    have hapart : ∀ l ∈ 'c' :: aspirated, l ≠ 'j' → ∀ cluster ∈ between 15 16, ∀ c ∈ [l, 'h'],
      c ∉ cluster.1.toList ∧ c ∉ cluster.2.toList := by decide
    intro l hl
    by_cases hj : l = 'j'
    · subst hj
      rw [hpass, infix_letter_replaceFrom (by decide) (by decide)]
      simp
    · rw [infix_after_iff (show 15 ≤ 16 by decide) (List.cons_ne_nil l _) (hapart l hl hj)]
      simp [hj]
  constructor
  · rintro ⟨l, hl, hh⟩
    rcases (hlast l hl).mp hh with hh | ⟨-, hh⟩
    · exact Or.inr ⟨l, hl, (hmiddle l (List.mem_cons_of_mem _ hl)).mp hh⟩
    · exact Or.inl ((hmiddle 'z' List.mem_cons_self).mp hh)
  · rintro (hh | ⟨l, hl, hh⟩)
    · refine ⟨'j', by decide, (hlast 'j' (by decide)).mpr (Or.inr ⟨rfl, ?_⟩)⟩
      exact (hmiddle 'z' List.mem_cons_self).mpr hh
    · exact ⟨l, hl, (hlast l hl).mpr (Or.inl ((hmiddle l (List.mem_cons_of_mem _ hl)).mpr hh))⟩

/-- A cluster is not made again if nothing of it is in what stands for it, nor in what stands for
the clusters after it. -/
theorem not_infix_after {n : Nat} {cluster : String × String}
    (step : clusters[n]? = some cluster) (apart : ∀ c ∈ cluster.1.toList, c ∉ cluster.2.toList)
    (apart_later : ∀ later ∈ between (n + 1) 16, ∀ c ∈ cluster.1.toList, c ∉ later.2.toList)
    (cs : List Char) : ¬ cluster.1.toList <:+: after 16 cs := by
  intro h
  obtain ⟨hold, hnew⟩ := clusters_ne_nil cluster (List.mem_of_getElem? step)
  have hn : n < 16 := (List.getElem?_eq_some_iff.mp step).1
  rw [after_of_le hn, after_succ step] at h
  exact not_infix_replaceFrom hold hnew apart _
    (infix_of_infix_foldl (between_subset _ _) hold apart_later h)

theorem exists_cluster_after_iff (cs : List Char) :
    (∃ cluster ∈ clusters, cluster.1.toList <:+: after 16 cs) ↔
      ['a', 'a'] <:+: after 16 cs ∨ ['c', 'k'] <:+: after 16 cs ∨
        ∃ l ∈ 'c' :: aspirated, [l, 'h'] <:+: after 16 cs := by
  have hkinds : ∀ cluster ∈ clusters, cluster.1.toList = ['a', 'a'] ∨
      cluster.1.toList = ['c', 'k'] ∨ (∃ l ∈ 'c' :: aspirated, [l, 'h'] <:+: cluster.1.toList) ∨
      ∃ n ∈ [1, 12, 13, 14, 15], clusters[n]? = some cluster := by
    decide
  have hgone : ∀ n ∈ [1, 12, 13, 14, 15], ∀ cluster ∈ clusters[n]?, ∀ c ∈ cluster.1.toList,
      c ∉ cluster.2.toList ∧ ∀ later ∈ between (n + 1) 16, c ∉ later.2.toList := by
    decide
  have hpair : ∀ l ∈ 'c' :: aspirated, ∃ cluster ∈ clusters, cluster.1.toList = [l, 'h'] := by
    decide
  constructor
  · rintro ⟨cluster, hcluster, h⟩
    rcases hkinds cluster hcluster with haa | hck | ⟨l, hl, hlh⟩ | ⟨n, hn, hstep⟩
    · exact Or.inl (haa ▸ h)
    · exact Or.inr (Or.inl (hck ▸ h))
    · exact Or.inr (Or.inr ⟨l, hl, hlh.trans h⟩)
    · have hapart := hgone n hn cluster hstep
      exact absurd h (not_infix_after hstep (fun c hc => (hapart c hc).1)
        (fun later hlater c hc => (hapart c hc).2 later hlater) cs)
  · rintro (h | h | ⟨l, hl, h⟩)
    · exact ⟨("aa", "a"), by decide, h⟩
    · exact ⟨("ck", "k"), by decide, h⟩
    · obtain ⟨cluster, hcluster, hletters⟩ := hpair l hl
      exact ⟨cluster, hcluster, hletters ▸ h⟩

/-- The stretches of a word from which a cluster is left: three `a`s, more `h`s than are taken
from a letter, an `h` after what becomes `j`, and two `c`s that come to stand before a `k`. -/
def lasting : List (List Char) :=
  [['a', 'a', 'a'], ['z', 'h'], ['c', 'h', 'h', 'h', 'h']] ++
    (aspirated.map fun l => [l, 'h', 'h']) ++
    (List.range 4).flatMap fun i => (List.range 4).map fun j =>
      'c' :: (List.replicate i 'h' ++ 'c' :: (List.replicate j 'h' ++ ['k']))

/-- A cluster is left when all clusters have been replaced exactly if one of these stretches was
there. -/
theorem exists_cluster_iff (cs : List Char) :
    (∃ cluster ∈ clusters, cluster.1.toList <:+: after 16 cs) ↔ ∃ p ∈ lasting, p <:+: cs := by
  have haspirated : (∃ l ∈ 'c' :: aspirated, [l, 'h'] <:+: after 10 cs) ↔
      ['c', 'h', 'h', 'h', 'h'] <:+: cs ∨ ∃ l ∈ aspirated, [l, 'h', 'h'] <:+: cs := by
    rw [List.exists_mem_cons_iff, c_after_iff]
    apply or_congr_right
    exact exists_congr fun l => and_congr_right fun hl => aspirated_after_iff hl cs
  rw [exists_cluster_after_iff, a_after_iff, k_after_iff, hard_after_iff, h_after_iff,
    z_after_iff, haspirated]
  simp only [lasting, List.mem_append, List.mem_cons, List.mem_map, List.mem_flatMap,
    List.mem_range, List.not_mem_nil, or_false]
  constructor
  · rintro (h | ⟨i, hi, j, hj, h⟩ | h | h | ⟨l, hl, h⟩)
    · exact ⟨_, Or.inl (Or.inl (Or.inl rfl)), h⟩
    · exact ⟨_, Or.inr ⟨i, hi, j, hj, rfl⟩, h⟩
    · exact ⟨_, Or.inl (Or.inl (Or.inr (Or.inl rfl))), h⟩
    · exact ⟨_, Or.inl (Or.inl (Or.inr (Or.inr rfl))), h⟩
    · exact ⟨_, Or.inl (Or.inr ⟨l, hl, rfl⟩), h⟩
  · rintro ⟨p, ((rfl | rfl | rfl) | ⟨l, hl, rfl⟩) | ⟨i, hi, j, hj, rfl⟩, h⟩
    · exact Or.inl h
    · exact Or.inr (Or.inr (Or.inl h))
    · exact Or.inr (Or.inr (Or.inr (Or.inl h)))
    · exact Or.inr (Or.inr (Or.inr (Or.inr ⟨l, hl, h⟩)))
    · exact Or.inr (Or.inl ⟨i, hi, j, hj, h⟩)

end Respell.Sound
