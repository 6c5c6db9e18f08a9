import Respell.Proofs.Site.Bytewise
import Respell.Proofs.Site.Order

namespace Respell.Site

open Text

/-- A site that lies in a text as it says. -/
structure Placed (text : List Char) (site : Site) : Prop where
  matched : slice? text site.span = some site.matched.toList
  word : slice? text ⟨site.offset, site.offset + width site.word.toList⟩ = some site.word.toList
  start_le : site.span.start ≤ site.offset
  le_stop : site.offset + width site.word.toList ≤ site.span.stop
  nonempty : site.span.start < site.span.stop

theorem placed_call (x : List Char) (call : Call) (y : List Char) :
    Placed (x ++ call.chars ++ y) (call.site (width x)) where
  matched := by simpa [Call.site] using slice?_append x call.chars y
  word := by
    have hword := slice?_append (x ++ call.lead) call.name (call.gap ++ ['('] ++ y)
    simpa [Call.site, Call.chars] using hword
  start_le := Nat.le_add_right _ _
  le_stop := by
    simp only [Call.site, Call.chars, String.toList_ofList, width_append]
    omega
  nonempty := Nat.lt_add_of_pos_right call.width_chars_pos

theorem placed_keyword {x y : List Char} {c : Char} {site : Site} (hc : isWordChar c = true)
    (h : keyword? x.reverse (width x) ((c :: y).takeWhile isWordChar) = some site) :
    Placed (x ++ c :: y) site := by
  have hword := slice?_wordEnd x (c :: y)
  have hpos : 0 < width ((c :: y).takeWhile isWordChar) := by
    rw [List.takeWhile_cons_of_pos hc]
    exact width_pos (List.cons_ne_nil _ _)
  unfold keyword? at h
  split at h
  · obtain rfl := Option.some.inj h
    constructor
    · simpa using hword
    · simpa using hword
    · exact Nat.le_refl _
    · simp
    · exact Nat.lt_add_of_pos_right hpos
  · cases h

theorem placed_of_mem_scan {text : List Char} {site : Site} (h : site ∈ scanFrom [] 0 {} text) :
    Placed text site := by
  cases hcall : site.isCall with
  | true =>
      have hmem : site ∈ callsFrom [] 0 {} text := List.mem_filter.mpr ⟨h, hcall⟩
      obtain ⟨front, back, hsplit⟩ := List.append_of_mem hmem
      obtain ⟨x, call, y, rfl, -, -, rfl, -⟩ := exists_call_of_calls hsplit
      exact placed_call x call y
  | false =>
      have hruns := scanFrom_eq_flatMap [] {} text
      rw [width_nil, List.reverse_nil, List.nil_append] at hruns
      rw [hruns] at h
      obtain ⟨run, hrun, hsite⟩ := List.mem_flatMap.mp h
      obtain ⟨x, c, y, rfl, hbegins, rfl⟩ := mem_runsFrom.mp hrun
      have hc : isWordChar c = true := by
        simp only [beginsName, Bool.and_eq_true] at hbegins
        exact hbegins.1.1.1
      have hhere := here_eq_sitesOf x.reverse (c :: y)
      rw [List.reverse_reverse, width_reverse] at hhere
      rw [List.reverse_nil, List.nil_append, ← hhere] at hsite
      rcases List.mem_append.mp hsite with hkeyword | hfound
      · exact placed_keyword hc (Option.mem_toList.mp hkeyword)
      · rw [isCall_of_call? (Option.mem_toList.mp hfound)] at hcall
        cases hcall

theorem offset_of_mem_sitesOf {text : List Char} {run : Span} {site : Site}
    (h : site ∈ sitesOf text run) : site.offset = run.start := by
  unfold sitesOf at h
  split at h
  · rcases List.mem_append.mp h with hkeyword | hcall
    · rw [Option.mem_toList, keywordOf?] at hkeyword
      split at hkeyword
      · rw [← Option.some.inj hkeyword]
      · cases hkeyword
    · rw [Option.mem_toList, callOf?] at hcall
      split at hcall
      · split at hcall <;> rw [← Option.some.inj hcall]
      · cases hcall
  · cases h

theorem pairwise_offset (text : List Char) :
    (scanFrom [] 0 {} text).Pairwise fun s t => s.offset ≤ t.offset := by
  have hruns := scanFrom_eq_flatMap [] {} text
  rw [width_nil, List.reverse_nil, List.nil_append] at hruns
  rw [hruns, List.pairwise_flatMap]
  constructor
  · intro run _
    apply List.pairwise_of_forall_mem_list
    intro s hs t ht
    rw [offset_of_mem_sitesOf hs, offset_of_mem_sitesOf ht]
  · apply (pairwise_runsFrom [] {} text).imp
    intro first second hlt s hs t ht
    rw [offset_of_mem_sitesOf hs, offset_of_mem_sitesOf ht]
    exact Nat.le_of_lt hlt

/-- The walk over the bytes of a text, which fails at a cut inside of a character or beyond the end
and at a negative difference, ends with the sites of the text, and a role is read at every offset.
Each site lies in the text as it says, the words come one after the other, and each call ends before
the next one starts. -/
theorem scan_placed (text : String) :
    read? text = some (scan text) ∧
    (∀ site ∈ scan text, Placed text.toList site) ∧
    (scan text).Pairwise (fun s t => s.offset ≤ t.offset) ∧
    ((scan text).filter isCall).Pairwise (fun s t =>
      s.span.start < s.span.stop ∧ s.span.stop ≤ t.span.start ∧ t.span.start < t.span.stop) ∧
    ∀ position, Role.read? text.toList position = some (Role.atOffset text position) := by
  refine ⟨read?_eq_scan text, fun site hsite => placed_of_mem_scan hsite, pairwise_offset text.toList,
    ?_, Role.read?_eq_atOffset text⟩
  apply (pairwise_calls text.toList).imp_of_mem
  intro s t hs ht hapart
  exact ⟨(placed_of_mem_scan (List.mem_of_mem_filter hs)).nonempty, hapart,
    (placed_of_mem_scan (List.mem_of_mem_filter ht)).nonempty⟩

end Respell.Site
