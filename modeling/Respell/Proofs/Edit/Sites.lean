import Respell.Proofs.Edit.Weave
import Respell.Proofs.Site.Order

namespace Respell.Edit

open Text

private theorem isCallOf_gap (name : List Char) {gap : List Char}
    (hgap : ∀ c ∈ gap, isBlank c = true) : isCallOf name (name ++ (gap ++ ['('])) = true := by
  have hparen : isBlank '(' = false := by decide
  simp [isCallOf, dropBlanks, dropWhile_run [] hgap hparen]

private theorem isSpacedCallOf_blanks {name : List Char} {x : List Char} (hx : x ≠ [])
    (hcall : isCallOf name x = true) {blanks : List Char}
    (hblanks : ∀ c ∈ blanks, isBlank c = true) : isSpacedCallOf name (blanks ++ x) = true := by
  induction blanks with
  | nil =>
      cases x with
      | nil => exact absurd rfl hx
      | cons c x => simp only [List.nil_append, isSpacedCallOf, hcall, Bool.true_or]
  | cons b blanks ih =>
      have hb : isBlank b = true := hblanks b (by simp)
      have hrest := ih fun c hc => hblanks c (by simp [hc])
      simp only [List.cons_append, isSpacedCallOf, hb, hrest, Bool.and_self, Bool.or_true]

private theorem isCallText_chars (call : Call) :
    isCallText call.role call.name call.chars = true := by
  have hcall := isCallOf_gap call.name call.gap_blank
  cases hblanks : call.blanks? with
  | none =>
      simp only [Call.role, Call.chars, Call.lead, hblanks]
      exact hcall
  | some blanks =>
      have hall : ∀ c ∈ blanks, isBlank c = true := by
        intro c hc
        exact call.blanks_blank c (by simpa [hblanks] using hc)
      have hspaced := isSpacedCallOf_blanks (by simp) hcall hall
      simp only [Call.role, Call.chars, Call.lead, hblanks]
      exact hspaced

theorem fits_of_call {edit : Edit} {call : Call} {x : List Char}
    (hsite : edit.site = call.site (width x)) (hstands : call.StandsAfter x.reverse)
    (y : List Char) : edit.fits (x ++ call.chars ++ y) = true := by
  have hboundary : (call.role == .method || !x.getLast?.any isWordChar) = true := by
    cases hblanks : call.blanks? with
    | none =>
        simp only [Call.StandsAfter, hblanks, List.head?_reverse] at hstands
        simp [hstands.1]
    | some blanks => simp [Call.role, hblanks]
  rw [fits, hsite]
  simp only [Call.site, parts?_append, String.toList_ofList, isCallText_chars, hboundary]
  simp

private theorem exists_keyword?_of_mem {before : List Char} {offset : Nat} {quotes : Quotes}
    {text : List Char} {site : Site} (hmem : site ∈ Site.scanFrom before offset quotes text)
    (hcall : site.isCall = false) :
    ∃ before offset word, Site.keyword? before offset word = some site := by
  induction text generalizing before offset quotes with
  | nil => simp [Site.scanFrom] at hmem
  | cons c text ih =>
      rcases List.mem_append.mp hmem with hhere | hrest
      · split at hhere
        · rcases List.mem_append.mp hhere with hkeyword | hfound
          · exact ⟨_, _, _, Option.mem_toList.mp hkeyword⟩
          · simp [Site.isCall_of_call? (Option.mem_toList.mp hfound)] at hcall
        · simp at hhere
      · exact ih hrest

private theorem fits_of_keyword? {edit : Edit} {before : List Char} {offset : Nat}
    {word : List Char} (h : Site.keyword? before offset word = some edit.site)
    (text : List Char) : edit.fits text = false := by
  have hsite : edit.site.role = .keyword ∧ edit.site.matched = edit.site.word := by
    unfold Site.keyword? at h
    split at h
    · rw [← Option.some.inj h]
      exact ⟨rfl, rfl⟩
    · simp at h
  unfold fits
  split
  · rfl
  · rename_i inside _ _
    rw [hsite.1, hsite.2]
    by_cases hinside : inside = edit.site.word.toList
    · simp [hinside, isCallText, isCallOf, dropBlanks]
    · simp [hinside]

theorem fits_eq_isCall {text : List Char} {edit : Edit}
    (h : edit.site ∈ Site.scanFrom [] 0 {} text) : edit.fits text = edit.site.isCall := by
  cases hcall : edit.site.isCall with
  | false =>
      obtain ⟨before, offset, word, hkeyword⟩ := exists_keyword?_of_mem h hcall
      exact fits_of_keyword? hkeyword text
  | true =>
      have hmem : edit.site ∈ Site.callsFrom [] 0 {} text := List.mem_filter.mpr ⟨h, hcall⟩
      obtain ⟨front, back, hsplit⟩ := List.append_of_mem hmem
      obtain ⟨x, call, y, rfl, hstands, -, hsite, -⟩ := Site.exists_call_of_calls hsplit
      exact fits_of_call hsite hstands y

theorem lastFirst_eq_reverse {edits : List Numbered}
    (h : edits.Pairwise fun x y => x.1.site.span.start ≤ y.1.site.span.start) :
    lastFirst edits = edits.reverse := by
  apply List.mergeSort_of_pairwise
  rw [List.pairwise_reverse]
  exact h.imp fun hle => by simpa using hle

private theorem map_fst_filter_zipIdx (p : Edit → Bool) (edits : List Edit) :
    (edits.zipIdx.filter fun edit => p edit.1).map Prod.fst = edits.filter p := by
  have hfst : edits.zipIdx.map Prod.fst = edits := List.zipIdx_map_fst 0 edits
  conv => rhs; rw [← hfst]
  rw [List.filter_map]
  rfl

section Sites

variable {lexicon : Lexicon} {text : List Char} {edits : List Edit}

private theorem stop_le_start_of_sublist
    (hsites : (edits.map Edit.site).Sublist (Site.scanFrom [] 0 {} text)) :
    (edits.filter fun edit => edit.site.isCall).Pairwise
      fun x y => x.site.span.stop ≤ y.site.span.start := by
  have hcalls : ((edits.filter fun edit => edit.site.isCall).map Edit.site).Sublist
      (Site.callsFrom [] 0 {} text) := by
    have hfilter := hsites.filter Site.isCall
    rw [List.filter_map] at hfilter
    exact hfilter
  exact List.pairwise_map.mp ((Site.pairwise_calls text).sublist hcalls)

theorem chosen_eq_reverse
    (hsites : (edits.map Edit.site).Sublist (Site.scanFrom [] 0 {} text))
    (hfree : ∀ edit ∈ edits, lexicon.exempts edit.site.word = false) :
    chosen lexicon text edits =
      (edits.zipIdx.filter fun edit => edit.1.site.isCall).reverse := by
  have hmem : ∀ edit ∈ edits.zipIdx, edit.1 ∈ edits := by
    intro edit hedit
    exact List.fst_mem_of_mem_zipIdx hedit
  have hfits : ∀ edit ∈ edits.zipIdx, edit.1.fits text = edit.1.site.isCall := by
    intro edit hedit
    exact fits_eq_isCall (hsites.subset (List.mem_map.mpr ⟨edit.1, hmem edit hedit, rfl⟩))
  have hall : (edits.zipIdx.filter fun edit => !lexicon.exempts edit.1.site.word) =
      edits.zipIdx := by
    rw [List.filter_eq_self]
    intro edit hedit
    simp [hfree edit.1 (hmem edit hedit)]
  have hsorted : edits.zipIdx.Pairwise
      fun x y => x.1.site.span.start ≤ y.1.site.span.start := by
    have hscan := (Site.pairwise_scanFrom [] 0 {} text).sublist hsites
    rw [← List.zipIdx_map_fst 0 edits, List.map_map, List.pairwise_map] at hscan
    exact hscan
  have hfilter : (edits.zipIdx.reverse.filter fun edit => edit.1.fits text) =
      (edits.zipIdx.filter fun edit => edit.1.site.isCall).reverse := by
    rw [List.filter_reverse, List.filter_congr hfits]
  rw [chosen, hall, lastFirst_eq_reverse hsorted, choose_eq_filter, hfilter]
  · intro edit _ hedit
    obtain ⟨x, y, z, rfl, -, hspan⟩ := cuts_of_fits hedit
    simp only [hspan, width_append]
    omega
  · rw [hfilter, List.pairwise_reverse]
    have hapart := stop_le_start_of_sublist hsites
    rw [← map_fst_filter_zipIdx fun edit => edit.site.isCall] at hapart
    exact List.pairwise_map.mp hapart

theorem map_fst_chosen
    (hsites : (edits.map Edit.site).Sublist (Site.scanFrom [] 0 {} text))
    (hfree : ∀ edit ∈ edits, lexicon.exempts edit.site.word = false) :
    (chosen lexicon text edits).map Prod.fst =
      (edits.filter fun edit => edit.site.isCall).reverse := by
  rw [chosen_eq_reverse hsites hfree, List.map_reverse,
    map_fst_filter_zipIdx fun edit => edit.site.isCall]

theorem foldlM_splice?_sites
    (hsites : (edits.map Edit.site).Sublist (Site.scanFrom [] 0 {} text)) :
    (edits.filter fun edit => edit.site.isCall).reverse.foldlM splice? text =
      some (weave (edits.filter fun edit => edit.site.isCall) 0 text) := by
  have hcuts : ∀ edit ∈ (edits.filter fun edit => edit.site.isCall).reverse,
      edit.Cuts text := by
    intro edit hedit
    obtain ⟨hmem, hcall⟩ := List.mem_filter.mp (List.mem_reverse.mp hedit)
    apply cuts_of_fits
    rw [fits_eq_isCall (hsites.subset (List.mem_map.mpr ⟨edit, hmem, rfl⟩)), hcall]
  have hfold := foldlM_splice? [] (List.pairwise_reverse.mpr (stop_le_start_of_sublist hsites))
    hcuts
  rw [List.append_nil, List.append_nil, List.reverse_reverse] at hfold
  exact hfold

/-- The edits at some sites are made from left to right at the calls, and reported in order. -/
theorem applyAll_eq_weave {source : String}
    (hsites : (edits.map Edit.site).Sublist (Site.scan source))
    (hfree : ∀ edit ∈ edits, lexicon.exempts edit.site.word = false) :
    applyAll lexicon source edits =
      { text := String.ofList
          (weave (edits.filter fun edit => edit.site.isCall) 0 source.toList)
        changes := firstOfEach ((edits.filter fun edit => edit.site.isCall).map change) } := by
  have hsplice : spliceAll? source.toList (chosen lexicon source.toList edits) =
      some (weave (edits.filter fun edit => edit.site.isCall) 0 source.toList) := by
    rw [spliceAll?_eq_foldlM, map_fst_chosen hsites hfree, foldlM_splice?_sites hsites]
  have hchanges : (edits.zipIdx.filter
      fun edit => (chosen lexicon source.toList edits).contains edit) =
      edits.zipIdx.filter fun edit => edit.1.site.isCall := by
    apply List.filter_congr
    intro edit hedit
    rw [chosen_eq_reverse hsites hfree, Bool.eq_iff_iff, List.contains_iff_mem,
      List.mem_reverse, List.mem_filter]
    exact ⟨fun h => h.2, fun h => ⟨hedit, h⟩⟩
  have hreported : (edits.zipIdx.filter fun edit => edit.1.site.isCall).map
      (fun edit => edit.1.change) = (edits.filter fun edit => edit.site.isCall).map change := by
    rw [← map_fst_filter_zipIdx fun edit => edit.site.isCall, List.map_map]
    rfl
  simp only [applyAll, hsplice, hchanges, hreported, Option.map_some, Option.getD_some]

end Sites

end Respell.Edit
