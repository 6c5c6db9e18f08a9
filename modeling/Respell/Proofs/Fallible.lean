namespace Respell

theorem exists_of_bind_eq_ok {ε α β : Type} {x : Except ε α} {f : α → Except ε β} {b : β}
    (h : x >>= f = .ok b) : ∃ a, x = .ok a ∧ f a = .ok b := by
  cases x with
  | error cause => cases h
  | ok a => exact ⟨a, rfl, h⟩

theorem bind_eq_error_iff {ε α β : Type} {x : Except ε α} {f : α → Except ε β} {cause : ε} :
    x >>= f = .error cause ↔ x = .error cause ∨ ∃ a, x = .ok a ∧ f a = .error cause := by
  cases x with
  | error other => simp [bind, Except.bind]
  | ok a => simp [bind, Except.bind]

theorem eq_ok_of_mapError {ε δ α : Type} {x : Except ε α} {f : ε → δ} {a : α}
    (h : x.mapError f = .ok a) : x = .ok a := by
  cases x with
  | error cause => cases h
  | ok b => exact congrArg Except.ok (Except.ok.inj h)

theorem foldlM_ok_induction {σ α ε : Type} {f : σ → α → Except ε σ}
    {motive : List α → σ → Prop} {entries : List α} {first last : σ}
    (h : entries.foldlM f first = .ok last) (start : motive [] first)
    (step : ∀ done entry s t, motive done s → f s entry = .ok t → motive (done ++ [entry]) t) :
    motive entries last := by
  have hrest : ∀ (rest done : List α) (s : σ), motive done s → rest.foldlM f s = .ok last →
      motive (done ++ rest) last := by
    intro rest
    induction rest with
    | nil =>
        intro done s hs hlast
        obtain rfl : s = last := Except.ok.inj hlast
        simpa using hs
    | cons entry rest ih =>
        intro done s hs hlast
        rw [List.foldlM_cons] at hlast
        obtain ⟨t, hentry, hlast⟩ := exists_of_bind_eq_ok hlast
        have hnext := ih (done ++ [entry]) t (step done entry s t hs hentry) hlast
        simpa using hnext
  exact hrest entries [] first start h

theorem foldlM_eq_error_iff {σ α ε : Type} {f : σ → α → Except ε σ} {entries : List α} {first : σ}
    {cause : ε} :
    entries.foldlM f first = .error cause ↔
      ∃ done entry rest, entries = done ++ entry :: rest ∧
        ∃ s, done.foldlM f first = .ok s ∧ f s entry = .error cause := by
  induction entries generalizing first with
  | nil => simp [pure, Except.pure]
  | cons head entries ih =>
      rw [List.foldlM_cons, bind_eq_error_iff]
      constructor
      · rintro (hhead | ⟨t, ht, hrest⟩)
        · exact ⟨[], head, entries, rfl, first, rfl, hhead⟩
        · obtain ⟨done, entry, rest, rfl, s, hs, hentry⟩ := ih.mp hrest
          refine ⟨head :: done, entry, rest, rfl, s, ?_, hentry⟩
          rw [List.foldlM_cons, ht]
          exact hs
      · rintro ⟨done, entry, rest, hsplit, s, hs, hentry⟩
        cases done with
        | nil =>
            obtain ⟨rfl, rfl⟩ := List.cons.inj hsplit
            obtain rfl : first = s := Except.ok.inj hs
            exact Or.inl hentry
        | cons next done =>
            obtain ⟨rfl, rfl⟩ := List.cons.inj hsplit
            rw [List.foldlM_cons] at hs
            obtain ⟨t, ht, hdone⟩ := exists_of_bind_eq_ok hs
            exact Or.inr ⟨t, ht, ih.mpr ⟨done, entry, rest, rfl, s, hdone, hentry⟩⟩

end Respell
