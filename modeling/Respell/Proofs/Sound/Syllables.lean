import Respell.Proofs.Sound.Replacement

/-!
# Syllables

The first ten clusters are a letter and one or two `h`s, so a word is read as letters, each with
the `h`s after it.
-/

namespace Respell.Sound

structure Syllable where
  letter : Char
  breath : Nat
  letter_ne : letter ≠ 'h' := by decide

namespace Syllable

def chars (s : Syllable) : List Char := s.letter :: List.replicate s.breath 'h'

def spell (ss : List Syllable) : List Char := ss.flatMap chars

@[simp] theorem spell_nil : spell [] = [] := rfl

@[simp] theorem spell_cons (s : Syllable) (ss : List Syllable) :
    spell (s :: ss) = s.letter :: (List.replicate s.breath 'h' ++ spell ss) := rfl

theorem eq_of_letter_breath {s t : Syllable} (letter : s.letter = t.letter)
    (breath : s.breath = t.breath) : s = t := by
  cases s
  cases t
  cases letter
  cases breath
  rfl

/-- Every text is a number of `h`s and then syllables. -/
theorem exists_spell (cs : List Char) :
    ∃ lead ss, cs = List.replicate lead 'h' ++ spell ss := by
  induction cs with
  | nil => exact ⟨0, [], rfl⟩
  | cons c cs ih =>
      obtain ⟨lead, ss, rfl⟩ := ih
      by_cases hc : c = 'h'
      · exact ⟨lead + 1, ss, by rw [hc, List.replicate_succ, List.cons_append]⟩
      · exact ⟨0, ⟨c, lead, hc⟩ :: ss, rfl⟩

theorem not_prefix_spell (ss : List Syllable) (cs : List Char) : ¬ 'h' :: cs <+: spell ss := by
  cases ss with
  | nil => simp
  | cons s ss =>
      intro h
      exact s.letter_ne (List.cons_prefix_cons.mp h).1.symm

theorem breath_prefix_iff {i j : Nat} {c : Char} (hc : c ≠ 'h') (cs : List Char)
    (ss : List Syllable) :
    List.replicate i 'h' ++ c :: cs <+: List.replicate j 'h' ++ spell ss ↔
      i = j ∧ c :: cs <+: spell ss := by
  induction i generalizing j with
  | zero =>
      cases j with
      | zero => simp
      | succ j => simp [List.replicate_succ, hc]
  | succ i ih =>
      cases j with
      | zero => simp [List.replicate_succ, not_prefix_spell]
      | succ j => simp [List.replicate_succ, ih]

theorem replicate_prefix_iff {i j : Nat} (ss : List Syllable) :
    List.replicate i 'h' <+: List.replicate j 'h' ++ spell ss ↔ i ≤ j := by
  induction i generalizing j with
  | zero => simp
  | succ i ih =>
      cases j with
      | zero => simp [List.replicate_succ, not_prefix_spell]
      | succ j => simp [List.replicate_succ, ih]

theorem exists_spell_concat (ps : List Syllable) (q : Syllable) :
    ∃ c cs, c ≠ 'h' ∧ spell (ps ++ [q]) = c :: cs := by
  cases ps with
  | nil => exact ⟨q.letter, _, q.letter_ne, rfl⟩
  | cons p ps => exact ⟨p.letter, _, p.letter_ne, rfl⟩

theorem spell_prefix_iff (ps : List Syllable) (q : Syllable) (ss : List Syllable) :
    spell (ps ++ [q]) <+: spell ss ↔
      ∃ u, ps ++ [u] <+: ss ∧ u.letter = q.letter ∧ q.breath ≤ u.breath := by
  induction ps generalizing ss with
  | nil =>
      cases ss with
      | nil => simp
      | cons s ss =>
          simp only [List.nil_append, spell_cons, spell_nil, List.append_nil,
            List.cons_prefix_cons, replicate_prefix_iff, List.nil_prefix, and_true]
          constructor
          · rintro ⟨hletter, hbreath⟩
            exact ⟨s, rfl, hletter.symm, hbreath⟩
          · rintro ⟨u, rfl, hletter, hbreath⟩
            exact ⟨hletter.symm, hbreath⟩
  | cons p ps ih =>
      cases ss with
      | nil => simp
      | cons s ss =>
          obtain ⟨c, cs, hc, hnext⟩ := exists_spell_concat ps q
          rw [List.cons_append, spell_cons, spell_cons, List.cons_prefix_cons, hnext,
            breath_prefix_iff hc, ← hnext, ih]
          constructor
          · rintro ⟨hletter, hbreath, u, hu, hq⟩
            refine ⟨u, ?_, hq⟩
            rw [eq_of_letter_breath hletter hbreath]
            exact List.cons_prefix_cons.mpr ⟨rfl, hu⟩
          · rintro ⟨u, hu, hq⟩
            obtain ⟨rfl, htail⟩ := List.cons_prefix_cons.mp hu
            exact ⟨rfl, rfl, u, htail, hq⟩

theorem spell_infix_breath_iff (ps : List Syllable) (q : Syllable) (n : Nat) (cs : List Char) :
    spell (ps ++ [q]) <:+: List.replicate n 'h' ++ cs ↔ spell (ps ++ [q]) <:+: cs := by
  obtain ⟨c, text, hc, htext⟩ := exists_spell_concat ps q
  rw [htext]
  induction n with
  | zero => exact Iff.rfl
  | succ n ih =>
      rw [List.replicate_succ, List.cons_append, List.infix_cons_iff, ih, or_iff_right]
      exact fun h => hc (List.cons_prefix_cons.mp h).1

/-- A stretch of syllables stands in a text where the word has these syllables, the last one with
as many `h`s or more. -/
theorem spell_infix_iff (ps : List Syllable) (q : Syllable) (lead : Nat) (ss : List Syllable) :
    spell (ps ++ [q]) <:+: List.replicate lead 'h' ++ spell ss ↔
      ∃ u, ps ++ [u] <:+: ss ∧ u.letter = q.letter ∧ q.breath ≤ u.breath := by
  rw [spell_infix_breath_iff]
  induction ss with
  | nil => cases ps <;> simp
  | cons s ss ih =>
      rw [spell_cons, List.infix_cons_iff, spell_infix_breath_iff, ← spell_cons,
        spell_prefix_iff, ih]
      simp only [List.infix_cons_iff, or_and_right, exists_or]

end Syllable

open Syllable

/-- A cluster of a letter and `h`s after it, and the letter that stands for it. -/
structure Aspirate where
  letter : Char
  breath : Nat
  sound : Char
  letter_ne : letter ≠ 'h' := by decide
  sound_ne : sound ≠ 'h' := by decide

namespace Aspirate

def cluster (a : Aspirate) : String × String :=
  (String.ofList (a.letter :: List.replicate a.breath 'h'), String.ofList [a.sound])

def apply (a : Aspirate) (s : Syllable) : Syllable :=
  if s.letter = a.letter ∧ a.breath ≤ s.breath then ⟨a.sound, s.breath - a.breath, a.sound_ne⟩
  else s

def plain (letter : Char) (letter_ne : letter ≠ 'h' := by decide) : Aspirate :=
  ⟨letter, 1, letter, letter_ne, letter_ne⟩

def all : List Aspirate :=
  [{ letter := 'c', breath := 2, sound := 'c' }, { letter := 'p', breath := 1, sound := 'f' },
    plain 'k', plain 'g', plain 'b', plain 'd', plain 't', plain 'j', plain 's', plain 'c']

theorem take_clusters : clusters.take 10 = all.map cluster := rfl

theorem apply_plain {l : Char} {hl : l ≠ 'h'} {s : Syllable} (h : s.letter = l) :
    (plain l hl).apply s = ⟨l, s.breath - 1, hl⟩ := by
  rw [apply, plain]
  split
  · rfl
  · apply eq_of_letter_breath h
    grind

theorem foldl_apply_filter (as : List Aspirate) (s : Syllable)
    (stays : ∀ a ∈ as, a.letter = s.letter → a.sound = s.letter) :
    as.foldl (fun s a => a.apply s) s =
      (as.filter fun a => a.letter = s.letter).foldl (fun s a => a.apply s) s := by
  induction as generalizing s with
  | nil => rfl
  | cons a as ih =>
      obtain ⟨hhead, htail⟩ := List.forall_mem_cons.mp stays
      rw [List.foldl_cons, List.filter_cons]
      by_cases ha : a.letter = s.letter
      · have hletter : (a.apply s).letter = s.letter := by
          rw [apply]
          split
          · exact hhead ha
          · rfl
        rw [if_pos (decide_eq_true ha), List.foldl_cons, ih (a.apply s) (by rwa [hletter]),
          hletter]
      · have hsame : a.apply s = s := if_neg fun hs => ha hs.1.symm
        rw [if_neg (by simpa using ha), hsame, ih s htail]

theorem letter_foldl_apply (as : List Aspirate) (s : Syllable) {letters : List Char}
    (closed : ∀ a ∈ as, a.letter ∈ letters → a.sound ∈ letters) (h : s.letter ∈ letters) :
    (as.foldl (fun s a => a.apply s) s).letter ∈ letters := by
  induction as generalizing s with
  | nil => exact h
  | cons a as ih =>
      obtain ⟨hhead, htail⟩ := List.forall_mem_cons.mp closed
      apply ih (a.apply s) htail
      rw [apply]
      split
      · rename_i hs
        exact hhead (hs.1 ▸ h)
      · exact h

theorem replaceFrom_breath (a : Aspirate) (n : Nat) (cs : List Char) :
    replaceFrom (a.letter :: List.replicate a.breath 'h') [a.sound] 0
        (List.replicate n 'h' ++ cs) =
      List.replicate n 'h' ++
        replaceFrom (a.letter :: List.replicate a.breath 'h') [a.sound] 0 cs := by
  induction n with
  | zero => rfl
  | succ n ih =>
      rw [List.replicate_succ, List.cons_append, replaceFrom_miss, ih, List.cons_append]
      exact fun h => a.letter_ne (List.cons_prefix_cons.mp h).1

theorem replaceFrom_spell (a : Aspirate) (ss : List Syllable) :
    replaceFrom (a.letter :: List.replicate a.breath 'h') [a.sound] 0 (spell ss) =
      spell (ss.map a.apply) := by
  induction ss with
  | nil => rw [spell_nil, replaceFrom_nil, List.map_nil, spell_nil]
  | cons s ss ih =>
      rw [List.map_cons, spell_cons, spell_cons, apply]
      by_cases hs : s.letter = a.letter ∧ a.breath ≤ s.breath
      · obtain ⟨rest, hrest⟩ := Nat.exists_eq_add_of_le hs.2
        rw [if_pos hs, hs.1, hrest, ← List.replicate_append_replicate, List.append_assoc,
          ← List.cons_append, replaceFrom_hit (List.cons_ne_nil _ _), replaceFrom_breath, ih,
          Nat.add_sub_cancel_left, List.singleton_append]
      · rw [if_neg hs, replaceFrom_miss, replaceFrom_breath, ih]
        intro hprefix
        obtain ⟨hletter, hbreath⟩ := List.cons_prefix_cons.mp hprefix
        exact hs ⟨hletter.symm, (replicate_prefix_iff ss).mp hbreath⟩

/-- The `h`s in front of the first letter stay, and each syllable changes on its own. -/
theorem foldl_replaceCluster (as : List Aspirate) (lead : Nat) (ss : List Syllable) :
    (as.map cluster).foldl replaceCluster (List.replicate lead 'h' ++ spell ss) =
      List.replicate lead 'h' ++ spell (ss.map fun s => as.foldl (fun s a => a.apply s) s) := by
  induction as generalizing ss with
  | nil => simp
  | cons a as ih =>
      rw [List.map_cons, List.foldl_cons, replaceCluster, cluster, String.toList_ofList,
        String.toList_ofList, replaceFrom_breath, replaceFrom_spell, ih, List.map_map]
      rfl

end Aspirate

/-- A syllable after the clusters of a letter and `h`s have been replaced. -/
def Syllable.soften (s : Syllable) : Syllable := Aspirate.all.foldl (fun s a => a.apply s) s

def aspirated : List Char := ['k', 'g', 'b', 'd', 't', 'j', 's']

namespace Syllable

variable {s : Syllable}

theorem soften_eq_foldl (h : s.letter ≠ 'p') :
    s.soften =
      (Aspirate.all.filter fun a => a.letter = s.letter).foldl (fun s a => a.apply s) s := by
  apply Aspirate.foldl_apply_filter
  have hstays : ∀ a ∈ Aspirate.all, a.letter = 'p' ∨ a.sound = a.letter := by decide
  intro a ha hletter
  rw [← hletter]
  exact (hstays a ha).resolve_left (hletter ▸ h)

theorem soften_aspirated (h : s.letter ∈ aspirated) :
    s.soften = ⟨s.letter, s.breath - 1, s.letter_ne⟩ := by
  have hone : ∀ l ∈ aspirated, ∀ hl : l ≠ 'h',
      (Aspirate.all.filter fun a => a.letter = l) = [Aspirate.plain l hl] := by
    intro l hmem hl
    simp only [aspirated, List.mem_cons, List.not_mem_nil, or_false] at hmem
    rcases hmem with rfl | rfl | rfl | rfl | rfl | rfl | rfl <;> rfl
  have hp : s.letter ≠ 'p' := by
    intro hp
    rw [hp] at h
    revert h
    decide
  rw [soften_eq_foldl hp, hone s.letter h s.letter_ne]
  exact Aspirate.apply_plain rfl

theorem soften_c (h : s.letter = 'c') : s.soften = ⟨'c', s.breath - 3, by decide⟩ := by
  have htwo : (Aspirate.all.filter fun a => a.letter = 'c') =
      [{ letter := 'c', breath := 2, sound := 'c' }, Aspirate.plain 'c'] := rfl
  have hfirst : Aspirate.apply { letter := 'c', breath := 2, sound := 'c' } s =
      ⟨'c', if 2 ≤ s.breath then s.breath - 2 else s.breath, by decide⟩ := by
    rw [Aspirate.apply]
    by_cases hbreath : 2 ≤ s.breath
    · rw [if_pos ⟨h, hbreath⟩, if_pos hbreath]
    · rw [if_neg fun hs => hbreath hs.2]
      exact eq_of_letter_breath h (if_neg hbreath).symm
  rw [soften_eq_foldl (by rw [h]; decide), h, htwo, List.foldl_cons, List.foldl_cons,
    List.foldl_nil, hfirst]
  refine (Aspirate.apply_plain rfl).trans (eq_of_letter_breath rfl ?_)
  dsimp only
  split <;> omega

theorem soften_p (h : s.letter = 'p') : s.soften.letter ∈ ['p', 'f'] := by
  apply Aspirate.letter_foldl_apply
  · decide
  · rw [h]
    exact List.mem_cons_self

theorem soften_other (hc : s.letter ≠ 'c') (hp : s.letter ≠ 'p') (h : s.letter ∉ aspirated) :
    s.soften = s := by
  have hnone : (Aspirate.all.filter fun a => a.letter = s.letter) = [] := by
    have hletters : ∀ a ∈ Aspirate.all, a.letter = 'c' ∨ a.letter = 'p' ∨ a.letter ∈ aspirated := by
      decide
    rw [List.filter_eq_nil_iff]
    intro a ha hletter
    rw [decide_eq_true_iff] at hletter
    have hmem := hletters a ha
    rw [hletter] at hmem
    exact hmem.elim hc fun hmem => hmem.elim hp h
  rw [soften_eq_foldl hp, hnone, List.foldl_nil]

theorem letter_soften_iff {l : Char} (hp : l ≠ 'p') (hf : l ≠ 'f') :
    s.soften.letter = l ↔ s.letter = l := by
  by_cases h : s.letter = 'p'
  · have hmem := soften_p h
    simp only [List.mem_cons, List.not_mem_nil, or_false] at hmem
    rw [h]
    exact iff_of_false (fun hl => hmem.elim (hl ▸ hp) (hl ▸ hf)) hp.symm
  · by_cases hc : s.letter = 'c'
    · rw [soften_c hc, hc]
    · by_cases hmem : s.letter ∈ aspirated
      · rw [soften_aspirated hmem]
      · rw [soften_other hc h hmem]

end Syllable

end Respell.Sound
