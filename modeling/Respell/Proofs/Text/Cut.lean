import Respell.Text.Offset

namespace Respell.Text

@[simp]
theorem width_nil : width [] = 0 := rfl

@[simp]
theorem width_cons (c : Char) (cs : List Char) : width (c :: cs) = c.utf8Size + width cs := rfl

@[simp]
theorem width_append (x y : List Char) : width (x ++ y) = width x + width y := by
  induction x with
  | nil => simp
  | cons c x ih => simp [ih, Nat.add_assoc]

theorem width_reverse (x : List Char) : width x.reverse = width x := by
  induction x with
  | nil => rfl
  | cons c x ih => simp [ih, Nat.add_comm]

theorem width_pos {x : List Char} (hx : x ≠ []) : 0 < width x := by
  cases x with
  | nil => exact absurd rfl hx
  | cons c x =>
      have hc := c.utf8Size_pos
      simp only [width_cons]
      omega

theorem splitAt?_append (x y : List Char) : splitAt? (x ++ y) (width x) = some (x, y) := by
  induction x with
  | nil => simp [splitAt?]
  | cons c x ih =>
      have hc := c.utf8Size_pos
      obtain ⟨n, hn⟩ : ∃ n, c.utf8Size + width x = n + 1 := ⟨c.utf8Size + width x - 1, by omega⟩
      have hrest : n + 1 - c.utf8Size = width x := by omega
      simp only [List.cons_append, width_cons, hn, splitAt?, hrest, ih, Option.map_some]
      rw [if_neg (by omega)]

theorem splitAt?_eq_some_iff (text : List Char) (offset : Nat) (x y : List Char) :
    splitAt? text offset = some (x, y) ↔ text = x ++ y ∧ offset = width x := by
  constructor
  · intro h
    induction text generalizing offset x with
    | nil =>
        cases offset with
        | zero =>
            obtain ⟨rfl, rfl⟩ : [] = x ∧ [] = y := by simpa [splitAt?] using h
            exact ⟨rfl, rfl⟩
        | succ n => simp [splitAt?] at h
    | cons c cs ih =>
        cases offset with
        | zero =>
            obtain ⟨rfl, rfl⟩ : [] = x ∧ c :: cs = y := by simpa [splitAt?] using h
            exact ⟨rfl, rfl⟩
        | succ n =>
            simp only [splitAt?] at h
            split at h
            · simp at h
            · rename_i hsize
              obtain ⟨⟨u, v⟩, huv, heq⟩ := Option.map_eq_some_iff.mp h
              obtain ⟨rfl, rfl⟩ : c :: u = x ∧ v = y := by simpa using heq
              obtain ⟨htext, hwidth⟩ := ih _ _ huv
              exact ⟨by rw [htext, List.cons_append], by simp only [width_cons]; omega⟩
  · rintro ⟨rfl, rfl⟩
    exact splitAt?_append x y

/-- The parts of a text at a span are those with the widths that the span tells. -/
theorem parts?_eq_some_iff (text : List Char) (span : Span) (x y z : List Char) :
    parts? text span = some (x, y, z) ↔
      text = x ++ y ++ z ∧ span.start = width x ∧ span.stop = width x + width y := by
  unfold parts?
  constructor
  · intro h
    split at h
    · rename_i hle
      obtain ⟨⟨u, rest⟩, hu, h⟩ := Option.bind_eq_some_iff.mp h
      obtain ⟨⟨v, w⟩, hv, h⟩ := Option.bind_eq_some_iff.mp h
      obtain ⟨rfl, rfl, rfl⟩ : u = x ∧ v = y ∧ w = z := by simpa using h
      obtain ⟨rfl, hstart⟩ := (splitAt?_eq_some_iff _ _ _ _).mp hu
      obtain ⟨rfl, hstop⟩ := (splitAt?_eq_some_iff _ _ _ _).mp hv
      exact ⟨by rw [List.append_assoc], hstart, by omega⟩
    · simp at h
  · rintro ⟨rfl, hstart, hstop⟩
    have hlength : span.stop - span.start = width y := by omega
    rw [if_pos (by omega), hstart, List.append_assoc, splitAt?_append]
    simp [← hstart, hlength, splitAt?_append]

theorem parts?_append (x y z : List Char) :
    parts? (x ++ y ++ z) ⟨width x, width x + width y⟩ = some (x, y, z) :=
  (parts?_eq_some_iff _ _ _ _ _).mpr ⟨rfl, rfl, rfl⟩

theorem replace?_append (x y z new : List Char) :
    replace? (x ++ y ++ z) ⟨width x, width x + width y⟩ new = some (x ++ new ++ z) := by
  rw [replace?, parts?_append]
  rfl

theorem exists_append_of_width_le {x y u v : List Char} (h : x ++ y = u ++ v)
    (hwidth : width x ≤ width u) : ∃ w, u = x ++ w ∧ y = w ++ v := by
  rcases List.append_eq_append_iff.mp h with ⟨w, hu, hy⟩ | ⟨w, hx, hv⟩
  · exact ⟨w, hu, hy⟩
  · have hempty : w = [] := by
      apply Classical.byContradiction
      intro hw
      have hpos := width_pos hw
      rw [hx, width_append] at hwidth
      omega
    subst hempty
    exact ⟨[], by simpa using hx.symm, by simpa using hv.symm⟩

theorem width_le_or_le_width {x y u v : List Char} {c : Char} (h : x ++ c :: y = u ++ v) :
    width u ≤ width x ∨ width x + c.utf8Size ≤ width u := by
  by_cases hwidth : width u ≤ width x
  · exact Or.inl hwidth
  · obtain ⟨w, rfl, hrest⟩ := exists_append_of_width_le h (by omega)
    cases w with
    | nil => simp at hwidth
    | cons d w =>
        obtain ⟨rfl, -⟩ := List.cons.inj hrest
        refine Or.inr ?_
        rw [width_append, width_cons]
        omega

theorem run_cases (p : Char → Bool) (x : List Char) :
    (∀ c ∈ x, p c = true) ∨
      ∃ run c rest, x = run ++ c :: rest ∧ (∀ d ∈ run, p d = true) ∧ p c = false := by
  induction x with
  | nil => simp
  | cons b x ih =>
      cases hb : p b with
      | false => exact Or.inr ⟨[], b, x, rfl, by simp, hb⟩
      | true =>
          rcases ih with hall | ⟨run, c, rest, rfl, hrun, hc⟩
          · exact Or.inl (by simpa [hb] using hall)
          · exact Or.inr ⟨b :: run, c, rest, rfl, by simpa [hb] using hrun, hc⟩

theorem takeWhile_run {p : Char → Bool} {run : List Char} {c : Char} (rest : List Char)
    (hrun : ∀ d ∈ run, p d = true) (hc : p c = false) :
    (run ++ c :: rest).takeWhile p = run := by
  rw [List.takeWhile_append_of_pos hrun, List.takeWhile_cons_of_neg (by simp [hc]),
    List.append_nil]

theorem dropWhile_run {p : Char → Bool} {run : List Char} {c : Char} (rest : List Char)
    (hrun : ∀ d ∈ run, p d = true) (hc : p c = false) :
    (run ++ c :: rest).dropWhile p = c :: rest := by
  rw [List.dropWhile_append_of_pos hrun, List.dropWhile_cons_of_neg (by simp [hc])]

theorem takeWhile_all {p : Char → Bool} {x : List Char} (hx : ∀ c ∈ x, p c = true) :
    x.takeWhile p = x := by
  simpa using @List.takeWhile_append_of_pos _ p x [] hx

theorem dropWhile_all {p : Char → Bool} {x : List Char} (hx : ∀ c ∈ x, p c = true) :
    x.dropWhile p = [] := by
  simpa using @List.dropWhile_append_of_pos _ p x [] hx

end Respell.Text
