import Respell.Proofs.Site.Call

namespace Respell.Site

open Text

theorem stop_le_width {text : List Char} {site : Site} (h : site ∈ callsFrom [] 0 {} text) :
    site.span.stop ≤ width text := by
  obtain ⟨front, back, hsplit⟩ := List.append_of_mem h
  obtain ⟨x, call, y, rfl, -, -, rfl, -⟩ := exists_call_of_calls hsplit
  simp only [Call.site, width_append]
  omega

/-- The spans of the calls of a text lie apart, one after the other. -/
theorem pairwise_calls (text : List Char) :
    (callsFrom [] 0 {} text).Pairwise fun s t => s.span.stop ≤ t.span.start := by
  have hreverse : ∀ (sites : List Site) (text : List Char),
      callsFrom [] 0 {} text = sites.reverse →
        sites.reverse.Pairwise fun s t => s.span.stop ≤ t.span.start := by
    intro sites
    induction sites with
    | nil => simp
    | cons site sites ih =>
        intro text htext
        rw [List.reverse_cons] at htext ⊢
        obtain ⟨x, call, y, -, -, -, rfl, hfront⟩ := exists_call_of_calls htext
        refine List.pairwise_append.mpr ⟨ih x hfront.symm, by simp, ?_⟩
        intro earlier hearlier last hlast
        obtain rfl : last = call.site (width x) := by simpa using hlast
        rw [hfront] at hearlier
        exact stop_le_width hearlier
  have h := hreverse (callsFrom [] 0 {} text).reverse text (by simp)
  simpa using h

/-- The place up to which a site that is still to come may reach back. -/
private def reach (before : List Char) (offset : Nat) : Nat :=
  offset - width (before.takeWhile fun c => isBlank c || c == '.')

private theorem reach_cons (before : List Char) (offset : Nat) (c : Char) :
    reach before offset ≤ reach (c :: before) (offset + c.utf8Size) := by
  unfold reach
  cases hc : isBlank c || c == '.' with
  | false =>
      rw [List.takeWhile_cons_of_neg (by simp [hc]), width_nil]
      omega
  | true =>
      simp only [List.takeWhile_cons, hc, if_true, width_cons]
      omega

private theorem reach_cons_word {c : Char} (hc : isWordChar c = true) (before : List Char)
    (offset : Nat) : offset ≤ reach (c :: before) (offset + c.utf8Size) := by
  have hblank := isBlank_eq_false_of_isWordChar hc
  have hdot : c ≠ '.' := ne_of_isWordChar hc (by decide)
  rw [reach, List.takeWhile_cons_of_neg (by simp [hblank, hdot]), width_nil]
  omega

private theorem width_lead_le {before : List Char} (h : followsDot before = true) :
    width ('.' :: (before.takeWhile isBlank).reverse) ≤
      width (before.takeWhile fun c => isBlank c || c == '.') := by
  obtain ⟨rest, hdrop, -⟩ := (followsDot_iff before).mp h
  have hsplit := List.takeWhile_append_dropWhile (p := isBlank) (l := before)
  rw [show before.dropWhile isBlank = '.' :: rest from hdrop] at hsplit
  have hblanks : ∀ c ∈ before.takeWhile isBlank, (isBlank c || c == '.') = true := by
    intro c hc
    have hblank : isBlank c = true := List.all_eq_true.mp List.all_takeWhile c hc
    simp [hblank]
  have htake : before.takeWhile (fun c => isBlank c || c == '.') =
      before.takeWhile isBlank ++ '.' :: rest.takeWhile fun c => isBlank c || c == '.' := by
    conv => lhs; rw [← hsplit]
    rw [List.takeWhile_append_of_pos hblanks, List.takeWhile_cons_of_pos (by simp)]
  rw [htake, width_append, width_cons, width_cons, width_reverse]
  omega

private theorem start_of_keyword? {before : List Char} {offset : Nat} {word : List Char}
    {site : Site} (h : keyword? before offset word = some site) :
    site.span.start = offset ∧ opensStatement before = true := by
  unfold keyword? at h
  split at h
  · rename_i hopens
    obtain rfl := Option.some.inj h
    simp only [Bool.and_eq_true] at hopens
    exact ⟨rfl, hopens.2⟩
  · simp at h

private theorem start_of_call? {before : List Char} {offset : Nat} {word after : List Char}
    {site : Site} (h : call? before offset word after = some site) :
    reach before offset ≤ site.span.start ∧ site.span.start ≤ offset ∧
      (followsDot before = false → site.span.start = offset) := by
  unfold call? at h
  split at h
  · split at h
    · rename_i hdot
      have hlead := width_lead_le hdot
      obtain rfl := Option.some.inj h
      simp only [reach, hdot]
      refine ⟨by omega, by omega, by simp⟩
    · rename_i hdot
      obtain rfl := Option.some.inj h
      simp only [reach]
      exact ⟨by omega, Nat.le_refl _, by simp⟩
  · simp at h

theorem opensStatement_eq_false {before : List Char} (h : followsDot before = true) :
    opensStatement before = false := by
  obtain ⟨rest, hdrop, -⟩ := (followsDot_iff before).mp h
  rw [opensStatement, hdrop]
  rfl

private theorem start_of_mem_here {before : List Char} {offset : Nat} {rest : List Char}
    {site : Site} (h : site ∈ here before offset rest) :
    reach before offset ≤ site.span.start ∧ site.span.start ≤ offset := by
  rcases List.mem_append.mp h with hmem | hmem
  · obtain ⟨hstart, -⟩ := start_of_keyword? (Option.mem_toList.mp hmem)
    rw [hstart]
    exact ⟨Nat.sub_le _ _, Nat.le_refl _⟩
  · obtain ⟨hreach, hstart, -⟩ := start_of_call? (Option.mem_toList.mp hmem)
    exact ⟨hreach, hstart⟩

private theorem pairwise_here (before : List Char) (offset : Nat) (rest : List Char) :
    (here before offset rest).Pairwise fun s t => s.span.start ≤ t.span.start := by
  refine List.pairwise_append.mpr ⟨?_, ?_, ?_⟩
  · cases keyword? before offset (rest.takeWhile isWordChar) <;> simp
  · cases call? before offset (rest.takeWhile isWordChar) (rest.dropWhile isWordChar) <;> simp
  · intro s hs t ht
    obtain ⟨hstart, hopens⟩ := start_of_keyword? (Option.mem_toList.mp hs)
    obtain ⟨-, -, hfunction⟩ := start_of_call? (Option.mem_toList.mp ht)
    have hdot : followsDot before = false := by
      cases hdot : followsDot before with
      | false => rfl
      | true => simp [opensStatement_eq_false hdot] at hopens
    exact Nat.le_of_eq (hstart.trans (hfunction hdot).symm)

private theorem reach_le_start {before : List Char} {offset : Nat} {quotes : Quotes}
    {text : List Char} {site : Site} (h : site ∈ scanFrom before offset quotes text) :
    reach before offset ≤ site.span.start := by
  induction text generalizing before offset quotes with
  | nil => simp [scanFrom] at h
  | cons c text ih =>
      rcases List.mem_append.mp h with hmem | hmem
      · split at hmem
        · exact (start_of_mem_here hmem).1
        · simp at hmem
      · exact Nat.le_trans (reach_cons before offset c) (ih hmem)

theorem pairwise_scanFrom (before : List Char) (offset : Nat) (quotes : Quotes)
    (text : List Char) :
    (scanFrom before offset quotes text).Pairwise fun s t => s.span.start ≤ t.span.start := by
  induction text generalizing before offset quotes with
  | nil => simp [scanFrom]
  | cons c text ih =>
      refine List.pairwise_append.mpr ⟨?_, ih _ _ _, ?_⟩
      · split
        · exact pairwise_here before offset (c :: text)
        · simp
      · intro s hs t ht
        split at hs
        · rename_i hbegins
          have hc : isWordChar c = true := by
            simp only [beginsName, Bool.and_eq_true] at hbegins
            exact hbegins.1.1.1
          have hstart := (start_of_mem_here hs).2
          have hword := reach_cons_word hc before offset
          have hreach := reach_le_start ht
          omega
        · simp at hs

end Respell.Site
