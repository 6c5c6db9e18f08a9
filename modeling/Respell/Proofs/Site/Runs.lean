import Mathlib.Data.List.DropRight
import Respell.Proofs.Site.Bytes
import Respell.Proofs.Site.Statement

/-! # Sites from the runs of a text -/

namespace Respell.Site

open Text

/-- A run of word bytes that no word byte continues on either side. -/
structure WordRun (bytes : List UInt8) (run : Span) : Prop where
  nonempty : run.start < run.stop
  word : ∀ p, run.start ≤ p → p < run.stop → bytes[p]?.any isWordByte = true
  first : 0 < run.start → bytes[run.start - 1]?.any isWordByte = false
  last : bytes[run.stop]?.any isWordByte = false

/-- A run that starts with no digit, and before which the quotes of either kind are even in number,
those right after a backslash apart. -/
structure NameRun (bytes : List UInt8) (run : Span) : Prop extends WordRun bytes run where
  letter : bytes[run.start]?.any isDigitByte = false
  double : Even (unescaped 0x5C 0x22 none (bytes.take run.start))
  single : Even (unescaped 0x5C 0x27 none (bytes.take run.start))

/-- The longest run of word characters at the head of `rest`, which comes after `x`. -/
def runAt (x rest : List Char) : Span :=
  ⟨width x, width x + width (rest.takeWhile isWordChar)⟩

theorem any_isWordByte_stop (x rest : List Char) :
    (encode (x ++ rest))[(runAt x rest).stop]?.any isWordByte = false := by
  have hafter := any_isWordByte_after (x ++ rest.takeWhile isWordChar) (rest.dropWhile isWordChar)
  rw [List.append_assoc, List.takeWhile_append_dropWhile, width_append] at hafter
  rw [runAt, hafter]
  cases hdrop : rest.dropWhile isWordChar with
  | nil => rfl
  | cons d z =>
      have hd := List.head?_dropWhile_not isWordChar rest
      rw [hdrop] at hd
      simpa using hd

theorem any_isWordByte_runAt (x rest : List Char) {p : Nat} (hstart : (runAt x rest).start ≤ p)
    (hstop : p < (runAt x rest).stop) : (encode (x ++ rest))[p]?.any isWordByte = true := by
  have hall : ∀ c ∈ rest.takeWhile isWordChar, isWordChar c = true :=
    List.all_eq_true.mp List.all_takeWhile
  have hword := any_isWordByte_inside (z := rest.dropWhile isWordChar) hall hstart hstop
  rwa [List.append_assoc, List.takeWhile_append_dropWhile] at hword

theorem WordRun.stop_unique {bytes : List UInt8} {start stop stop' : Nat}
    (h : WordRun bytes ⟨start, stop⟩) (h' : WordRun bytes ⟨start, stop'⟩) : stop = stop' := by
  have hle : ∀ {e e' : Nat}, WordRun bytes ⟨start, e⟩ → WordRun bytes ⟨start, e'⟩ → e ≤ e' := by
    intro e e' hrun hrun'
    apply Nat.not_lt.mp
    intro hlt
    have hword := hrun.word e' (Nat.le_of_lt hrun'.nonempty) hlt
    have hlast := hrun'.last
    rw [hword] at hlast
    cases hlast
  exact Nat.le_antisymm (hle h h') (hle h' h)

theorem wordRun_runAt {x y : List Char} {c : Char} (hc : isWordChar c = true)
    (hx : x.getLast?.any isWordChar = false) :
    WordRun (encode (x ++ c :: y)) (runAt x (c :: y)) where
  nonempty := by
    have hpos : 0 < width ((c :: y).takeWhile isWordChar) := by
      rw [List.takeWhile_cons_of_pos hc]
      exact width_pos (List.cons_ne_nil _ _)
    simp only [runAt]
    omega
  word p := any_isWordByte_runAt x (c :: y)
  first hstart := by
    have hne : x ≠ [] := by
      rintro rfl
      exact Nat.lt_irrefl 0 hstart
    rw [← hx]
    exact any_isWordByte_before hne (c :: y)
  last := any_isWordByte_stop x (c :: y)

/-- The runs of word bytes begin with the word characters that come after no other. -/
theorem wordRun_iff {text : List Char} {run : Span} :
    WordRun (encode text) run ↔
      ∃ x c y, text = x ++ c :: y ∧ isWordChar c = true ∧ x.getLast?.any isWordChar = false ∧
        run = runAt x (c :: y) := by
  constructor
  · intro h
    have hfirst := h.word run.start (Nat.le_refl _) h.nonempty
    have hlt : run.start < width text := by
      rw [← length_encode]
      apply Nat.not_le.mp
      intro hout
      rw [List.getElem?_eq_none hout] at hfirst
      cases hfirst
    obtain ⟨x, c, y, rfl, hx, hc⟩ := exists_char_at hlt
    have hword : isWordChar c = true := by
      rw [← hfirst, any_isWordByte_encode hx hc]
    have hsize := utf8Size_eq_one (toNat_lt_of_isWordChar hword)
    have hstart : run.start = width x := by omega
    have hbefore : x.getLast?.any isWordChar = false := by
      by_cases hempty : x = []
      · simp [hempty]
      · rw [← any_isWordByte_before hempty (c :: y), ← hstart]
        apply h.first
        rw [hstart]
        exact width_pos hempty
    refine ⟨x, c, y, rfl, hword, hbefore, ?_⟩
    have hrun := wordRun_runAt (y := y) hword hbefore
    cases run with
    | mk start stop =>
        obtain rfl : start = width x := hstart
        rw [h.stop_unique hrun]
        rfl
  · rintro ⟨x, c, y, rfl, hc, hx, rfl⟩
    exact wordRun_runAt hc hx

/-- The names of a text begin where the scan looks for sites. -/
theorem nameRun_iff {text : List Char} {run : Span} :
    NameRun (encode text) run ↔
      ∃ x c y, text = x ++ c :: y ∧
        (beginsName x.reverse c && (Quotes.passing {} [] x).closed) = true ∧
        run = runAt x (c :: y) := by
  have hclosed : ∀ {x c y}, (Quotes.passing {} [] x).closed = true ↔
      Even (unescaped 0x5C 0x22 none ((encode (x ++ c :: y)).take (width x))) ∧
        Even (unescaped 0x5C 0x27 none ((encode (x ++ c :: y)).take (width x))) := by
    intro x c y
    exact Quotes.closed_passing_iff_bytes (Nat.le_refl _)
      (Nat.lt_add_of_pos_right c.utf8Size_pos)
  simp only [beginsName, Bool.and_eq_true, Bool.not_eq_true', List.head?_reverse]
  constructor
  · intro h
    obtain ⟨x, c, y, rfl, hc, hx, rfl⟩ := wordRun_iff.mp h.toWordRun
    have hletter : c.isDigit = false := by
      rw [← any_isDigitByte_after x y hc]
      exact h.letter
    exact ⟨x, c, y, rfl, ⟨⟨⟨hc, hletter⟩, hx⟩, hclosed.mpr ⟨h.double, h.single⟩⟩, rfl⟩
  · rintro ⟨x, c, y, rfl, ⟨⟨⟨hc, hletter⟩, hx⟩, hquotes⟩, rfl⟩
    exact
      { toWordRun := wordRun_runAt hc hx
        letter := (any_isDigitByte_after x y hc).trans hletter
        double := (hclosed.mp hquotes).1
        single := (hclosed.mp hquotes).2 }

def runsFrom (before : List Char) (quotes : Quotes) : List Char → List Span
  | [] => []
  | c :: rest =>
      (if beginsName before c && quotes.closed then [runAt before.reverse (c :: rest)] else []) ++
        runsFrom (c :: before) (quotes.step before.head? c) rest

theorem mem_runsFrom {before : List Char} {quotes : Quotes} {text : List Char} {run : Span} :
    run ∈ runsFrom before quotes text ↔
      ∃ x c y, text = x ++ c :: y ∧
        (beginsName (x.reverse ++ before) c && (quotes.passing before x).closed) = true ∧
        run = runAt (before.reverse ++ x) (c :: y) := by
  induction text generalizing before quotes with
  | nil => simp [runsFrom]
  | cons d text ih =>
      rw [runsFrom, List.mem_append, ih]
      constructor
      · rintro (hmem | ⟨x, c, y, rfl, hbegins, rfl⟩)
        · split at hmem
          · rename_i hbegins
            refine ⟨[], d, text, rfl, hbegins, ?_⟩
            simpa using hmem
          · simp at hmem
        · refine ⟨d :: x, c, y, rfl, ?_, ?_⟩
          · simpa [Quotes.passing] using hbegins
          · simp
      · rintro ⟨x, c, y, htext, hbegins, rfl⟩
        cases x with
        | nil =>
            obtain ⟨rfl, rfl⟩ := List.cons.inj htext
            left
            rw [if_pos (by simpa [Quotes.passing] using hbegins)]
            simp
        | cons e x =>
            obtain ⟨rfl, rfl⟩ := List.cons.inj htext
            right
            refine ⟨x, c, y, rfl, ?_, ?_⟩
            · simpa [Quotes.passing] using hbegins
            · simp

theorem pairwise_runsFrom (before : List Char) (quotes : Quotes) (text : List Char) :
    (runsFrom before quotes text).Pairwise fun first second => first.start < second.start := by
  induction text generalizing before quotes with
  | nil => exact List.Pairwise.nil
  | cons d text ih =>
      apply List.pairwise_append.mpr
      refine ⟨?_, ih _ _, ?_⟩
      · split <;> simp
      · intro first hfirst second hsecond
        obtain ⟨x, c, y, -, -, rfl⟩ := mem_runsFrom.mp hsecond
        split at hfirst
        · obtain rfl := List.mem_singleton.mp hfirst
          have hd := d.utf8Size_pos
          simp only [runAt, width_append, width_reverse, width_cons]
          omega
        · simp at hfirst

/-- A statement word is a keyword if nothing but blanks comes before it back to the start of the
text or to the end of a statement. -/
def keywordOf? (run : Span) (before word : List Char) : Option Site :=
  if String.ofList word ∈ statementWords ∧
      (before.filter (!isBlank ·)).getLast?.all isStatementEnd = true then
    some ⟨String.ofList word, .keyword, run.start, run, String.ofList word⟩
  else none

/-- A name is called if blanks and a parenthesis follow; the call is one of a method if the text in
front ends in one dot, blanks apart. -/
def callOf? (run : Span) (before word after : List Char) : Option Site :=
  let gap := after.takeWhile isBlank
  let front := before.rdropWhile isBlank
  let stop := run.stop + width gap + 1
  if gap ++ ['('] <+: after then
    if ['.'] <:+ front ∧ ¬ ['.', '.'] <:+ front then
      some ⟨String.ofList word, .method, run.start, ⟨width front - 1, stop⟩,
        String.ofList (before.drop (front.length - 1) ++ word ++ gap ++ ['('])⟩
    else
      some ⟨String.ofList word, .function, run.start, ⟨run.start, stop⟩,
        String.ofList (word ++ gap ++ ['('])⟩
  else none

/-- What a run of a text is reported as. -/
def sitesOf (text : List Char) (run : Span) : List Site :=
  match parts? text run with
  | some (before, word, after) =>
      (keywordOf? run before word).toList ++ (callOf? run before word after).toList
  | none => []

theorem opensStatement_eq (before : List Char) :
    opensStatement before = (before.reverse.filter (!isBlank ·)).getLast?.all isStatementEnd := by
  have hlast : (before.reverse.filter (!isBlank ·)).getLast? = (dropBlanks before).head? := by
    rw [List.getLast?_filter, List.reverse_reverse, List.find?_not_eq_head?_dropWhile]
    rfl
  rw [hlast, opensStatement]
  cases dropBlanks before <;> rfl

theorem meetsParen_iff (after : List Char) :
    meetsParen after = true ↔ after.takeWhile isBlank ++ ['('] <+: after := by
  have hsplit := List.takeWhile_append_dropWhile (p := isBlank) (l := after)
  rw [meetsParen, dropBlanks, beq_iff_eq, List.head?_eq_some_iff]
  constructor
  · rintro ⟨rest, hrest⟩
    refine ⟨rest, ?_⟩
    rw [List.append_assoc, List.singleton_append, ← hrest, hsplit]
  · rintro ⟨rest, hrest⟩
    refine ⟨rest, ?_⟩
    rw [List.append_assoc, List.singleton_append] at hrest
    exact List.append_cancel_left (hsplit.trans hrest.symm)

theorem rdropWhile_reverse (before : List Char) :
    before.reverse.rdropWhile isBlank = (dropBlanks before).reverse := by
  rw [List.rdropWhile, List.reverse_reverse]
  rfl

theorem followsDot_iff_suffix (before : List Char) :
    followsDot before = true ↔
      ['.'] <:+ before.reverse.rdropWhile isBlank ∧
        ¬ ['.', '.'] <:+ before.reverse.rdropWhile isBlank := by
  rw [rdropWhile_reverse, followsDot_iff, ← List.reverse_prefix, ← List.reverse_prefix,
    List.reverse_reverse]
  cases dropBlanks before with
  | nil => simp
  | cons c rest =>
      cases rest with
      | nil => simp [eq_comm]
      | cons d rest =>
          by_cases hc : c = '.'
          · simp [hc, eq_comm]
          · simp [hc, eq_comm]

theorem keyword?_eq (before word : List Char) :
    keyword? before (width before) word =
      keywordOf? ⟨width before, width before + width word⟩ before.reverse word := by
  rw [keyword?, keywordOf?, opensStatement_eq]
  simp

theorem lead_of_followsDot {before : List Char} (h : followsDot before = true) :
    let front := before.reverse.rdropWhile isBlank
    let lead := '.' :: (before.takeWhile isBlank).reverse
    before.reverse.drop (front.length - 1) = lead ∧
      width front - 1 = width before - width lead := by
  intro front lead
  obtain ⟨rest, hdrop, -⟩ := (followsDot_iff before).mp h
  have hpoint : '.'.utf8Size = 1 := by decide
  have hfront : front = rest.reverse ++ ['.'] := by
    rw [← List.reverse_cons, ← hdrop]
    exact rdropWhile_reverse before
  have hsplit : before.reverse = rest.reverse ++ lead := by
    have hread := List.takeWhile_append_dropWhile (p := isBlank) (l := before)
    rw [show before.dropWhile isBlank = '.' :: rest from hdrop] at hread
    rw [← hread]
    simp [lead]
  have hwidth : width before = width rest + width lead := by
    rw [← width_reverse before, hsplit, width_append, width_reverse]
  constructor
  · rw [hsplit, hfront]
    simp
  · rw [hfront, width_append, width_reverse, hwidth, width_cons, width_nil, hpoint]
    omega

theorem call?_eq (before word after : List Char) :
    call? before (width before) word after =
      callOf? ⟨width before, width before + width word⟩ before.reverse word after := by
  have hparen : '('.utf8Size = 1 := by decide
  have hstop : width before + width (word ++ after.takeWhile isBlank ++ ['(']) =
      width before + width word + width (after.takeWhile isBlank) + 1 := by
    simp [hparen, Nat.add_assoc]
  unfold call? callOf?
  dsimp only
  rw [hstop]
  by_cases hmeets : meetsParen after = true
  · rw [if_pos hmeets, if_pos ((meetsParen_iff after).mp hmeets)]
    by_cases hdot : followsDot before = true
    · obtain ⟨hlead, hstart⟩ := lead_of_followsDot hdot
      rw [if_pos hdot, if_pos ((followsDot_iff_suffix before).mp hdot), hlead, hstart]
      simp
    · rw [if_neg hdot, if_neg (mt (followsDot_iff_suffix before).mpr hdot)]
  · rw [if_neg hmeets, if_neg (mt (meetsParen_iff after).mpr hmeets)]

theorem parts?_runAt (x rest : List Char) :
    parts? (x ++ rest) (runAt x rest) =
      some (x, rest.takeWhile isWordChar, rest.dropWhile isWordChar) := by
  have hparts := parts?_append x (rest.takeWhile isWordChar) (rest.dropWhile isWordChar)
  rwa [List.append_assoc, List.takeWhile_append_dropWhile] at hparts

theorem here_eq_sitesOf (before rest : List Char) :
    here before (width before) rest =
      sitesOf (before.reverse ++ rest) (runAt before.reverse rest) := by
  rw [sitesOf, parts?_runAt, here, keyword?_eq, call?_eq, runAt, width_reverse]

/-- The scan reports the sites of one name after the other. -/
theorem scanFrom_eq_flatMap (before : List Char) (quotes : Quotes) (text : List Char) :
    scanFrom before (width before) quotes text =
      (runsFrom before quotes text).flatMap (sitesOf (before.reverse ++ text)) := by
  induction text generalizing before quotes with
  | nil => rfl
  | cons c text ih =>
      have hnext := ih (c :: before) (quotes.step before.head? c)
      rw [width_cons, Nat.add_comm, List.reverse_cons, List.append_assoc,
        List.singleton_append] at hnext
      rw [scanFrom, runsFrom, List.flatMap_append, hnext, here_eq_sitesOf]
      split <;> simp

theorem role_of_mem_here {before rest : List Char} {offset : Nat} {site : Site}
    (h : site ∈ here before offset rest) (hcall : site.isCall = true) :
    site.role = Role.between before rest ∧ site.offset = offset := by
  rcases List.mem_append.mp h with hmem | hmem
  · rw [isCall_of_keyword? (Option.mem_toList.mp hmem)] at hcall
    cases hcall
  · have hsite := Option.mem_toList.mp hmem
    unfold call? at hsite
    unfold Role.between
    split at hsite
    · rename_i hmeets
      split at hsite
      · rename_i hdot
        obtain rfl := Option.some.inj hsite
        simp [hdot]
      · rename_i hdot
        obtain rfl := Option.some.inj hsite
        simp [hdot, hmeets]
    · cases hsite

theorem role_of_mem_scanFrom {before : List Char} {quotes : Quotes} {text : List Char}
    {site : Site} (h : site ∈ scanFrom before (width before) quotes text)
    (hcall : site.isCall = true) :
    site.role = Role.atOffset (String.ofList (before.reverse ++ text)) site.offset := by
  induction text generalizing before quotes with
  | nil => cases h
  | cons c text ih =>
      rcases List.mem_append.mp h with hmem | hmem
      · split at hmem
        · obtain ⟨hrole, hoffset⟩ := role_of_mem_here hmem hcall
          have hcut : splitAt? (before.reverse ++ c :: text) (width before) =
              some (before.reverse, c :: text) := by
            rw [splitAt?_eq_some_iff, width_reverse]
            exact ⟨rfl, rfl⟩
          simp [Role.atOffset, hrole, hoffset, hcut]
        · cases hmem
      · rw [Nat.add_comm, ← width_cons] at hmem
        have hnext := ih hmem
        rwa [List.reverse_cons, List.append_assoc, List.singleton_append] at hnext

/-- The sites of a text are those of its names, in the order of the names, and the role of each
call is the one of its place in the text. -/
theorem scan_runs (text : String) :
    ∃ runs : List Span,
      runs.Pairwise (fun first second => first.start < second.start) ∧
      (∀ run, run ∈ runs ↔ NameRun (encode text.toList) run) ∧
      (∀ run ∈ runs, (parts? text.toList run).isSome = true) ∧
      scan text = runs.flatMap (sitesOf text.toList) ∧
      ∀ site ∈ scan text, site.isCall = true → site.role = Role.atOffset text site.offset := by
  refine ⟨runsFrom [] {} text.toList, pairwise_runsFrom _ _ _, ?_, ?_, ?_, ?_⟩
  · intro run
    rw [mem_runsFrom, nameRun_iff]
    simp
  · intro run hrun
    obtain ⟨x, c, y, htext, -, rfl⟩ := mem_runsFrom.mp hrun
    rw [htext, List.reverse_nil, List.nil_append, parts?_runAt]
    rfl
  · exact scanFrom_eq_flatMap [] {} text.toList
  · intro site hsite hcall
    have hrole := @role_of_mem_scanFrom [] {} text.toList site hsite hcall
    simpa using hrole

example : sitesOf "throw (a . f ( ))".toList ⟨0, 5⟩ =
    [⟨"throw", .keyword, 0, ⟨0, 5⟩, "throw"⟩, ⟨"throw", .function, 0, ⟨0, 7⟩, "throw ("⟩] := by
  decide +kernel

example : sitesOf "throw (a . f ( ))".toList ⟨11, 12⟩ =
    [⟨"f", .method, 11, ⟨9, 14⟩, ". f ("⟩] := by
  decide +kernel

end Respell.Site
