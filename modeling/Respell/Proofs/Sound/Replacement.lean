import Mathlib.Algebra.GroupWithZero.Nat
import Respell.Sound

namespace Respell.Sound

theorem infix_append_iff_of_apart {p l rest : List Char} (some : p ≠ [])
    (apart : ∀ c ∈ p, c ∉ l) : p <:+: l ++ rest ↔ p <:+: rest := by
  induction l with
  | nil => exact Iff.rfl
  | cons x l ih =>
      have hlater := ih fun c hc => List.not_mem_of_not_mem_cons (apart c hc)
      rw [List.cons_append, List.infix_cons_iff, hlater]
      refine or_iff_right ?_
      intro hhere
      obtain rfl | ⟨t, rfl, -⟩ := List.prefix_cons_iff.mp hhere
      · exact some rfl
      · exact apart x List.mem_cons_self List.mem_cons_self

section Replacement

variable {old new : List Char}

theorem replaceFrom_eq_drop (skip : Nat) (cs : List Char) :
    replaceFrom old new skip cs = replaceFrom old new 0 (cs.drop skip) := by
  induction cs generalizing skip with
  | nil =>
      rw [List.drop_nil, replaceFrom, replaceFrom]
  | cons c cs ih =>
      cases skip with
      | zero => rfl
      | succ skip => rw [replaceFrom, ih, List.drop_succ_cons]

@[simp] theorem replaceFrom_nil : replaceFrom old new 0 [] = [] := by
  rw [replaceFrom]

theorem replaceFrom_hit (some : old ≠ []) (rest : List Char) :
    replaceFrom old new 0 (old ++ rest) = new ++ replaceFrom old new 0 rest := by
  cases old with
  | nil => exact absurd rfl some
  | cons o old =>
      have hhit : (o :: old).isPrefixOf (o :: (old ++ rest)) = true := by
        rw [List.isPrefixOf_iff_prefix]
        exact List.prefix_append (o :: old) rest
      rw [List.cons_append, replaceFrom, if_pos hhit, replaceFrom_eq_drop, List.length_cons,
        Nat.add_sub_cancel, List.drop_left]

theorem replaceFrom_miss {c : Char} {cs : List Char} (miss : ¬ old <+: c :: cs) :
    replaceFrom old new 0 (c :: cs) = c :: replaceFrom old new 0 cs := by
  rw [replaceFrom, if_neg]
  rwa [List.isPrefixOf_iff_prefix]

/-- A text is read from left to right, an occurrence of the cluster at a time where there is one
and a character at a time elsewhere. -/
@[elab_as_elim]
theorem replace_induction (some : old ≠ []) {motive : List Char → Prop} (nil : motive [])
    (hit : ∀ rest, motive rest → motive (old ++ rest))
    (miss : ∀ c cs, ¬ old <+: c :: cs → motive cs → motive (c :: cs)) (cs : List Char) :
    motive cs := by
  match cs with
  | [] => exact nil
  | c :: cs =>
      by_cases hhit : old <+: c :: cs
      · obtain ⟨rest, hrest⟩ := hhit
        have hless : rest.length < (c :: cs).length := by
          have hpos := List.length_pos_iff.mpr some
          rw [← hrest, List.length_append]
          omega
        rw [← hrest]
        exact hit rest (replace_induction some nil hit miss rest)
      · exact miss c cs hhit (replace_induction some nil hit miss cs)
termination_by cs.length
decreasing_by
  · exact hless
  · exact Nat.lt_succ_self cs.length

theorem replaceFrom_of_not_infix {cs : List Char} (absent : ¬ old <:+: cs) :
    replaceFrom old new 0 cs = cs := by
  induction cs with
  | nil => exact replaceFrom_nil
  | cons c cs ih =>
      rw [List.infix_cons_iff, not_or] at absent
      rw [replaceFrom_miss absent.1, ih absent.2]

variable (some : old ≠ [])

include some

theorem mem_replaceFrom {c : Char} {cs : List Char} (h : c ∈ replaceFrom old new 0 cs) :
    c ∈ new ∨ c ∈ cs := by
  induction cs using replace_induction some with
  | nil => exact Or.inr h
  | hit rest ih =>
      rw [replaceFrom_hit some, List.mem_append] at h
      rcases h with hnew | hrest
      · exact Or.inl hnew
      · exact (ih hrest).imp_right (List.mem_append_right old)
  | miss d cs hmiss ih =>
      rw [replaceFrom_miss hmiss, List.mem_cons] at h
      rcases h with rfl | hrest
      · exact Or.inr List.mem_cons_self
      · exact (ih hrest).imp_right (List.mem_cons_of_mem d)

section Foreign

variable {p : List Char}

theorem prefix_of_prefix_replaceFrom (written : new ≠ []) (apart : ∀ c ∈ p, c ∉ new)
    {cs : List Char} (h : p <+: replaceFrom old new 0 cs) : p <+: cs := by
  induction cs using replace_induction some generalizing p with
  | nil => rwa [replaceFrom_nil] at h
  | hit rest ih =>
      rw [replaceFrom_hit some] at h
      cases new with
      | nil => exact absurd rfl written
      | cons n new =>
          obtain rfl | ⟨t, rfl, -⟩ := List.prefix_cons_iff.mp h
          · exact List.nil_prefix
          · exact absurd List.mem_cons_self (apart n List.mem_cons_self)
  | miss c cs hmiss ih =>
      rw [replaceFrom_miss hmiss] at h
      obtain rfl | ⟨t, rfl, ht⟩ := List.prefix_cons_iff.mp h
      · exact List.nil_prefix
      · have hrest := ih (fun d hd => apart d (List.mem_cons_of_mem c hd)) ht
        exact List.cons_prefix_cons.mpr ⟨rfl, hrest⟩

theorem prefix_replaceFrom (apart : ∀ c ∈ p, c ∉ old) {cs : List Char} (h : p <+: cs) :
    p <+: replaceFrom old new 0 cs := by
  induction cs using replace_induction some generalizing p with
  | nil => rwa [replaceFrom_nil]
  | hit rest ih =>
      cases old with
      | nil => exact absurd rfl some
      | cons o old =>
          obtain rfl | ⟨t, rfl, -⟩ := List.prefix_cons_iff.mp h
          · exact List.nil_prefix
          · exact absurd List.mem_cons_self (apart o List.mem_cons_self)
  | miss c cs hmiss ih =>
      rw [replaceFrom_miss hmiss]
      obtain rfl | ⟨t, rfl, ht⟩ := List.prefix_cons_iff.mp h
      · exact List.nil_prefix
      · have hrest := ih (fun d hd => apart d (List.mem_cons_of_mem c hd)) ht
        exact List.cons_prefix_cons.mpr ⟨rfl, hrest⟩

theorem infix_of_infix_replaceFrom (written : new ≠ []) (long : p ≠ [])
    (apart : ∀ c ∈ p, c ∉ new) {cs : List Char} (h : p <:+: replaceFrom old new 0 cs) :
    p <:+: cs := by
  induction cs using replace_induction some with
  | nil => rwa [replaceFrom_nil] at h
  | hit rest ih =>
      rw [replaceFrom_hit some, infix_append_iff_of_apart long apart] at h
      exact List.infix_append_of_infix_right (ih h)
  | miss c cs hmiss ih =>
      rw [replaceFrom_miss hmiss, List.infix_cons_iff, ← replaceFrom_miss hmiss] at h
      rw [List.infix_cons_iff]
      exact h.imp (prefix_of_prefix_replaceFrom some written apart) ih

theorem infix_replaceFrom (long : p ≠ []) (apart : ∀ c ∈ p, c ∉ old) {cs : List Char}
    (h : p <:+: cs) : p <:+: replaceFrom old new 0 cs := by
  induction cs using replace_induction some with
  | nil => rwa [replaceFrom_nil]
  | hit rest ih =>
      rw [replaceFrom_hit some]
      exact List.infix_append_of_infix_right (ih ((infix_append_iff_of_apart long apart).mp h))
  | miss c cs hmiss ih =>
      rw [replaceFrom_miss hmiss, List.infix_cons_iff, ← replaceFrom_miss hmiss]
      exact (List.infix_cons_iff.mp h).imp (prefix_replaceFrom some apart) ih

end Foreign

theorem not_infix_replaceFrom (written : new ≠ []) (apart : ∀ c ∈ old, c ∉ new)
    (cs : List Char) : ¬ old <:+: replaceFrom old new 0 cs := by
  induction cs using replace_induction some with
  | nil => rwa [replaceFrom_nil, List.infix_nil]
  | hit rest ih => rwa [replaceFrom_hit some, infix_append_iff_of_apart some apart]
  | miss c cs hmiss ih =>
      rw [replaceFrom_miss hmiss, List.infix_cons_iff, ← replaceFrom_miss hmiss, not_or]
      exact ⟨fun hhere => hmiss (prefix_of_prefix_replaceFrom some written apart hhere), ih⟩

/-- A measure of texts that falls at each replacement does not rise, and falls if the cluster
occurs. -/
theorem weight_replaceFrom (weight : Char → Nat)
    (falls : (new.map weight).sum < (old.map weight).sum) (cs : List Char) :
    ((replaceFrom old new 0 cs).map weight).sum ≤ (cs.map weight).sum ∧
      (old <:+: cs →
        ((replaceFrom old new 0 cs).map weight).sum < (cs.map weight).sum) := by
  induction cs using replace_induction some with
  | nil =>
      rw [replaceFrom_nil, List.infix_nil]
      exact ⟨Nat.le_refl _, fun hnil => absurd hnil some⟩
  | hit rest ih =>
      rw [replaceFrom_hit some, List.map_append, List.map_append, List.sum_append_nat,
        List.sum_append_nat]
      exact ⟨by omega, fun _ => by omega⟩
  | miss c cs hmiss ih =>
      rw [replaceFrom_miss hmiss, List.infix_cons_iff, List.map_cons, List.map_cons,
        List.sum_cons, List.sum_cons]
      refine ⟨by omega, ?_⟩
      rintro (hhere | hlater)
      · exact absurd hhere hmiss
      · have hless := ih.2 hlater
        omega

end Replacement

theorem infix_pair_replaceFrom {x y : Char} (cs : List Char) :
    [x, y] <:+: replaceFrom [x, y] [y] 0 cs ↔ [x, x, y] <:+: cs := by
  have hhead : ∀ cs, [y] <+: replaceFrom [x, y] [y] 0 cs ↔ [y] <+: cs ∨ [x, y] <+: cs := by
    intro cs
    induction cs using replace_induction (List.cons_ne_nil x [y]) with
    | nil => simp
    | hit rest =>
        rw [replaceFrom_hit (List.cons_ne_nil x [y])]
        simp
    | miss c cs hmiss => simp [replaceFrom_miss hmiss, hmiss]
  induction cs using replace_induction (List.cons_ne_nil x [y]) with
  | nil => simp
  | hit rest ih =>
      rw [replaceFrom_hit (List.cons_ne_nil x [y])]
      simp only [List.cons_append, List.nil_append, List.infix_cons_iff, ih,
        List.cons_prefix_cons, hhead]
      grind
  | miss c cs hmiss ih =>
      rw [replaceFrom_miss hmiss]
      simp only [List.infix_cons_iff, ih, List.cons_prefix_cons, hhead] at hmiss ⊢
      grind

theorem infix_breath_replaceFrom {x y l h : Char} (hx : h ≠ x) (hy : h ≠ y) (cs : List Char) :
    [l, h] <:+: replaceFrom [x, y] [y] 0 cs ↔ [l, h] <:+: cs := by
  have hhead : ∀ cs, [h] <+: replaceFrom [x, y] [y] 0 cs ↔ [h] <+: cs := by
    intro cs
    constructor
    · exact prefix_of_prefix_replaceFrom (List.cons_ne_nil x [y]) (List.cons_ne_nil y [])
        (by simpa using hy)
    · exact prefix_replaceFrom (List.cons_ne_nil x [y]) (by simpa using ⟨hx, hy⟩)
  induction cs using replace_induction (List.cons_ne_nil x [y]) with
  | nil => simp
  | hit rest ih =>
      rw [replaceFrom_hit (List.cons_ne_nil x [y])]
      simp only [List.cons_append, List.nil_append, List.infix_cons_iff, ih,
        List.cons_prefix_cons, hhead]
      grind
  | miss c cs hmiss ih =>
      rw [replaceFrom_miss hmiss]
      simp only [List.infix_cons_iff, ih, List.cons_prefix_cons, hhead]

theorem infix_letter_replaceFrom {x y h : Char} (hx : h ≠ x) (hy : h ≠ y) (cs : List Char) :
    [y, h] <:+: replaceFrom [x] [y] 0 cs ↔ [y, h] <:+: cs ∨ [x, h] <:+: cs := by
  have hhead : ∀ cs, [h] <+: replaceFrom [x] [y] 0 cs ↔ [h] <+: cs := by
    intro cs
    constructor
    · exact prefix_of_prefix_replaceFrom (List.cons_ne_nil x []) (List.cons_ne_nil y [])
        (by simpa using hy)
    · exact prefix_replaceFrom (List.cons_ne_nil x []) (by simpa using hx)
  induction cs using replace_induction (List.cons_ne_nil x []) with
  | nil => simp
  | hit rest ih =>
      rw [replaceFrom_hit (List.cons_ne_nil x [])]
      simp only [List.cons_append, List.nil_append, List.infix_cons_iff, ih,
        List.cons_prefix_cons, hhead]
      grind
  | miss c cs hmiss ih =>
      rw [replaceFrom_miss hmiss]
      simp only [List.infix_cons_iff, ih, List.cons_prefix_cons, hhead] at hmiss ⊢
      grind

end Respell.Sound
