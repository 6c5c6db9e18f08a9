import Respell.Proofs.Site.Literal

namespace Respell.Site

open Text

def shift (distance : Nat) (site : Site) : Site :=
  { site with
    offset := site.offset + distance
    span := ⟨site.span.start + distance, site.span.stop + distance⟩ }

def isStatementEnd (c : Char) : Bool := c == '\x7b' || c == '\x7d' || c == ';'

theorem isStatementEnd_cases {c : Char} (hc : isStatementEnd c = true) :
    isBlank c = false ∧ isWordChar c = false ∧ c ≠ '.' ∧ c ≠ '\x5c' := by
  obtain (rfl | rfl) | rfl : (c = '\x7b' ∨ c = '\x7d') ∨ c = ';' := by
    simpa [isStatementEnd] using hc
  · decide
  · decide
  · decide

theorem isSeam_of_isStatementEnd {x : List Char} {c : Char} (hlast : x.getLast? = some c)
    (hc : isStatementEnd c = true) (y : List Char) : isSeam x y = true := by
  obtain ⟨hblank, hword, -, -⟩ := isStatementEnd_cases hc
  unfold isSeam
  rw [hlast]
  cases y.head? <;> simp [hblank, hword]

theorem LooksLike.append {before before' : List Char} (h : LooksLike before before')
    (read : List Char) : LooksLike (read ++ before) (read ++ before') := by
  induction read with
  | nil => exact h
  | cons c read ih => exact ih.cons c

private theorem width_lead_le_width {read : List Char} (h : followsDot read = true) :
    width ('.' :: (read.takeWhile isBlank).reverse) ≤ width read := by
  obtain ⟨rest, hdrop, -⟩ := (followsDot_iff read).mp h
  have hsplit := List.takeWhile_append_dropWhile (p := isBlank) (l := read)
  rw [show read.dropWhile isBlank = '.' :: rest from hdrop] at hsplit
  have hwidth := congrArg width hsplit
  rw [width_append, width_cons] at hwidth
  rw [width_cons, width_reverse]
  omega

section Past

variable {c : Char} (hc : isStatementEnd c = true) (past : List Char)

include hc

theorem LooksLike.statementEnd : LooksLike (c :: past) [] where
  word read := by
    cases read with
    | nil => simp [(isStatementEnd_cases hc).2.1]
    | cons d read => rfl
  escape read := by
    cases read with
    | nil => simp [(isStatementEnd_cases hc).2.2.2]
    | cons d read => rfl
  dot read := by
    obtain ⟨hblank, -, hdot, -⟩ := isStatementEnd_cases hc
    rw [Bool.eq_iff_iff, followsDot_iff, followsDot_iff, List.append_nil]
    rcases run_cases isBlank read with hall | ⟨run, d, rest, rfl, hrun, hd⟩
    · simp [dropBlanks, dropWhile_run _ hall hblank, dropWhile_all hall, hdot]
    · cases rest <;> simp [dropBlanks, dropWhile_run _ hrun hd, and_assoc, hdot]
  statement read := by
    obtain ⟨hblank, -⟩ := isStatementEnd_cases hc
    have hopens : (c == '\x7b' || c == '\x7d' || c == ';') = true := hc
    rw [List.append_nil]
    rcases run_cases isBlank read with hall | ⟨run, d, rest, rfl, hrun, hd⟩
    · simp only [opensStatement, dropBlanks, dropWhile_run _ hall hblank, dropWhile_all hall,
        hopens]
    · simp [opensStatement, dropBlanks, dropWhile_run _ hrun hd]

private theorem takeWhile_isBlank_append (read : List Char) :
    (read ++ c :: past).takeWhile isBlank = read.takeWhile isBlank := by
  obtain ⟨hblank, -⟩ := isStatementEnd_cases hc
  rcases run_cases isBlank read with hall | ⟨run, d, rest, rfl, hrun, hd⟩
  · rw [takeWhile_run _ hall hblank, takeWhile_all hall]
  · rw [List.append_assoc, List.cons_append, takeWhile_run _ hrun hd, takeWhile_run _ hrun hd]

private theorem keyword?_shift (read word : List Char) (distance : Nat) :
    keyword? (read ++ c :: past) (width read + distance) word =
      (keyword? read (width read) word).map (shift distance) := by
  have hopens := (LooksLike.statementEnd hc past).statement read
  rw [List.append_nil] at hopens
  unfold keyword?
  rw [hopens]
  split
  · simp only [Option.map_some, shift, Option.some.injEq, mk.injEq, true_and, and_true]
    congr 1
    omega
  · rfl

private theorem call?_shift (read word after : List Char) (distance : Nat) :
    call? (read ++ c :: past) (width read + distance) word after =
      (call? read (width read) word after).map (shift distance) := by
  have hdot := (LooksLike.statementEnd hc past).dot read
  rw [List.append_nil] at hdot
  unfold call?
  rw [hdot, takeWhile_isBlank_append hc past]
  split
  · by_cases hfollows : followsDot read = true
    · have hlead := width_lead_le_width hfollows
      rw [if_pos hfollows, if_pos hfollows]
      simp only [Option.map_some, shift, Option.some.injEq, mk.injEq, true_and, and_true]
      congr 1
      · omega
      · omega
    · rw [if_neg hfollows, if_neg hfollows]
      simp only [Option.map_some, shift, Option.some.injEq, mk.injEq, true_and, and_true]
      congr 1
      omega
  · rfl

private theorem here_shift (read rest : List Char) (distance : Nat) :
    here (read ++ c :: past) (width read + distance) rest =
      (here read (width read) rest).map (shift distance) := by
  simp only [here, keyword?_shift hc, call?_shift hc, List.map_append, Option.toList_map]

theorem scanFrom_shift (read : List Char) (distance : Nat) (quotes : Quotes)
    (text : List Char) :
    scanFrom (read ++ c :: past) (width read + distance) quotes text =
      (scanFrom read (width read) quotes text).map (shift distance) := by
  induction text generalizing read quotes with
  | nil => rfl
  | cons d text ih =>
      have hlooks : LooksLike (read ++ c :: past) read := by
        have happend := (LooksLike.statementEnd hc past).append read
        rwa [List.append_nil] at happend
      have hoffset : width read + d.utf8Size = width (d :: read) := by
        rw [width_cons, Nat.add_comm]
      have hnext : width read + distance + d.utf8Size = width (d :: read) + distance := by omega
      have hrest := ih (d :: read) (quotes.step read.head? d)
      rw [List.cons_append] at hrest
      rw [scanFrom, scanFrom, hlooks.beginsName_eq d, hlooks.step_eq quotes d, hnext, hoffset,
        hrest, List.map_append]
      congr 1
      split
      · exact here_shift hc past read (d :: text) distance
      · rfl

end Past

/-- After a statement that leaves no literal open, a text has its own sites in their own order. -/
theorem scan_append {first second : String}
    (hend : first.toList.getLast?.any isStatementEnd = true)
    (hclosed : (Quotes.passing {} [] first.toList).closed = true) :
    scan (first ++ second) =
      scan first ++ (scan second).map (shift (width first.toList)) := by
  obtain ⟨c, hlast, hc⟩ : ∃ c, first.toList.getLast? = some c ∧ isStatementEnd c = true := by
    simpa [Option.any_eq_true] using hend
  obtain ⟨before, htext⟩ := List.getLast?_eq_some_iff.mp hlast
  have hpast : first.toList.reverse = c :: before.reverse := by
    rw [htext, List.reverse_append]
    rfl
  have hshift := scanFrom_shift hc before.reverse [] (width first.toList) {} second.toList
  rw [List.nil_append, width_nil, Nat.zero_add] at hshift
  unfold scan
  rw [String.toList_append, scanFrom_append [] 0 {} (isSeam_of_isStatementEnd hlast hc _),
    List.append_nil, Nat.zero_add, Quotes.eq_empty_of_closed hclosed, hpast, hshift]

end Respell.Site
