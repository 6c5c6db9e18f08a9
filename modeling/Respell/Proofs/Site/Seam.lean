import Respell.Proofs.Text.Cut
import Respell.Site

/-!
# Seams of a text

A text may be scanned in two parts when no name and no call reaches across the seam between them.
-/

namespace Respell

open Text

theorem isWordChar_bounds {c : Char} (hc : isWordChar c = true) :
    48 ≤ c.toNat ∧ c.toNat ≤ 122 := by
  delta isWordChar Char.isAlphanum Char.isAlpha Char.isUpper Char.isLower Char.isDigit at hc
  simp only [Bool.or_eq_true, Bool.and_eq_true, decide_eq_true_eq, beq_iff_eq, ge_iff_le,
    UInt32.le_iff_toNat_le] at hc
  obtain ((⟨hl, hr⟩ | ⟨hl, hr⟩) | ⟨hl, hr⟩) | rfl := hc
  · exact ⟨Nat.le_trans (by decide) hl, Nat.le_trans hr (by decide)⟩
  · exact ⟨Nat.le_trans (by decide) hl, Nat.le_trans hr (by decide)⟩
  · exact ⟨Nat.le_trans (by decide) hl, Nat.le_trans hr (by decide)⟩
  · decide

theorem isBlank_eq_false_of_isWordChar {c : Char} (hc : isWordChar c = true) :
    isBlank c = false := by
  have hbounds := isWordChar_bounds hc
  simp only [isBlank, inRanges, blankRanges, List.any_cons, List.any_nil, Bool.or_false,
    Bool.or_eq_false_iff, Bool.and_eq_false_iff, decide_eq_false_iff_not]
  omega

theorem isWordChar_eq_false_of_isBlank {c : Char} (hc : isBlank c = true) :
    isWordChar c = false := by
  cases hword : isWordChar c with
  | false => rfl
  | true => simp [isBlank_eq_false_of_isWordChar hword] at hc

theorem ne_of_isWordChar {c d : Char} (hc : isWordChar c = true) (hd : isWordChar d = false) :
    c ≠ d := by
  rintro rfl
  simp [hc] at hd

theorem ne_of_isBlank {c d : Char} (hc : isBlank c = true) (hd : isBlank d = false) : c ≠ d := by
  rintro rfl
  simp [hc] at hd

theorem followsDot_iff (before : List Char) :
    followsDot before = true ↔
      ∃ rest, dropBlanks before = '.' :: rest ∧ rest.head? ≠ some '.' := by
  unfold followsDot
  constructor
  · intro h
    split at h
    · simp at h
    · rename_i rest hne heq
      refine ⟨rest, heq, ?_⟩
      cases rest with
      | nil => simp
      | cons d rest =>
          intro hd
          exact hne rest (by simpa [heq] using hd)
    · simp at h
  · rintro ⟨rest, heq, hne⟩
    rw [heq]
    cases rest with
    | nil => rfl
    | cons d rest =>
        have hd : d ≠ '.' := by simpa using hne
        split
        · simp_all
        · rfl
        · simp_all

namespace Quotes

/-- The quotes that are open after some more text; `before` is read backwards. -/
def passing (quotes : Quotes) (before : List Char) : List Char → Quotes
  | [] => quotes
  | c :: cs => (quotes.step before.head? c).passing (c :: before) cs

theorem passing_append (quotes : Quotes) (before x y : List Char) :
    quotes.passing before (x ++ y) =
      (quotes.passing before x).passing (x.reverse ++ before) y := by
  induction x generalizing quotes before with
  | nil => rfl
  | cons c x ih =>
      simp only [List.cons_append, passing, List.reverse_cons, List.append_assoc, List.nil_append]
      exact ih _ _

def isPlain (c : Char) : Bool := c != '\x22' && c != '\x27'

theorem isPlain_of_isWordChar {c : Char} (hc : isWordChar c = true) : isPlain c = true := by
  simp [isPlain, ne_of_isWordChar (d := '\x22') hc (by decide),
    ne_of_isWordChar (d := '\x27') hc (by decide)]

theorem isPlain_of_isBlank {c : Char} (hc : isBlank c = true) : isPlain c = true := by
  simp [isPlain, ne_of_isBlank (d := '\x22') hc (by decide),
    ne_of_isBlank (d := '\x27') hc (by decide)]

theorem step_of_isPlain (quotes : Quotes) (previous : Option Char) {c : Char}
    (hc : isPlain c = true) : quotes.step previous c = quotes := by
  obtain ⟨hdouble, hsingle⟩ : c ≠ '\x22' ∧ c ≠ '\x27' := by simpa [isPlain] using hc
  simp [step, hdouble, hsingle]

theorem passing_of_isPlain (quotes : Quotes) (before : List Char) {x : List Char}
    (hx : ∀ c ∈ x, isPlain c = true) : quotes.passing before x = quotes := by
  induction x generalizing before with
  | nil => rfl
  | cons c x ih =>
      rw [passing, step_of_isPlain quotes _ (hx c (by simp))]
      exact ih _ fun d hd => hx d (by simp [hd])

end Quotes

namespace Site

/-- Neither a name nor the blanks before a parenthesis reach from one text into the next. -/
def isSeam (x y : List Char) : Bool :=
  match x.getLast?, y.head? with
  | some a, some b =>
      !(isWordChar a && isWordChar b) && !((isWordChar a || isBlank a) && (isBlank b || b == '('))
  | _, _ => true

theorem isSeam_suffix {x y z : List Char} (hseam : isSeam (x ++ y) z = true) (hy : y ≠ []) :
    isSeam y z = true := by
  rw [isSeam, List.getLast?_append, List.getLast?_eq_some_getLast hy, Option.some_or] at hseam
  rw [isSeam, List.getLast?_eq_some_getLast hy]
  exact hseam

theorem isSeam_paren (x y : List Char) : isSeam (x ++ ['(']) y = true := by
  have hword : isWordChar '(' = false := by decide
  have hblank : isBlank '(' = false := by decide
  cases y <;> simp [isSeam, hword, hblank]

theorem isSeam_dot (x y : List Char) : isSeam x ('.' :: y) = true := by
  have hword : isWordChar '.' = false := by decide
  have hblank : isBlank '.' = false := by decide
  cases hlast : x.getLast? <;> simp [isSeam, hlast, hword, hblank]

private theorem meetsParen_append {x y : List Char} (hx : x ≠ []) (hseam : isSeam x y = true) :
    meetsParen (x ++ y) = meetsParen x ∧
      (meetsParen x = true → (x ++ y).takeWhile isBlank = x.takeWhile isBlank) := by
  rcases run_cases isBlank x with hall | ⟨run, b, rest, rfl, hrun, hb⟩
  · have hfalse : meetsParen x = false := by
      simp [meetsParen, dropBlanks, dropWhile_all hall]
    refine ⟨?_, by simp [hfalse]⟩
    rw [hfalse, meetsParen, dropBlanks, List.dropWhile_append_of_pos hall]
    cases y with
    | nil => rfl
    | cons d y =>
        have hlast := hall _ (List.getLast_mem hx)
        have hd : isBlank d = false ∧ d ≠ '(' := by
          simpa [isSeam, List.getLast?_eq_some_getLast hx, hlast,
            isWordChar_eq_false_of_isBlank hlast] using hseam
        simp [hd.1, hd.2]
  · rw [List.append_assoc, List.cons_append]
    simp [meetsParen, dropBlanks, dropWhile_run _ hrun hb, takeWhile_run _ hrun hb]

theorem call?_append (before : List Char) (offset : Nat) (word : List Char) {x y : List Char}
    (hx : x ≠ []) (hseam : isSeam x y = true) :
    call? before offset word (x ++ y) = call? before offset word x := by
  obtain ⟨hparen, htake⟩ := meetsParen_append hx hseam
  unfold call?
  rw [hparen]
  by_cases hmeets : meetsParen x = true
  · rw [htake hmeets]
  · rw [if_neg hmeets, if_neg hmeets]

theorem here_append (before : List Char) (offset : Nat) {x y : List Char} (hx : x ≠ [])
    (hseam : isSeam x y = true) : here before offset (x ++ y) = here before offset x := by
  rcases run_cases isWordChar x with hall | ⟨run, b, rest, rfl, hrun, hb⟩
  · have hlast : isWordChar (x.getLast hx) = true := hall _ (List.getLast_mem hx)
    have hnone : y.takeWhile isWordChar = [] ∧ meetsParen y = false ∧
        y.dropWhile isWordChar = y := by
      cases y with
      | nil => exact ⟨rfl, rfl, rfl⟩
      | cons d y =>
          obtain ⟨hword, hblank, hparen⟩ :
              isWordChar d = false ∧ isBlank d = false ∧ d ≠ '(' := by
            simpa [isSeam, List.getLast?_eq_some_getLast hx, hlast] using hseam
          simp [meetsParen, dropBlanks, hword, hblank, hparen]
    have hcall : ∀ after, meetsParen after = false → call? before offset x after = none := by
      intro after hafter
      simp [call?, hafter]
    simp only [here, List.takeWhile_append_of_pos hall, List.dropWhile_append_of_pos hall,
      takeWhile_all hall, dropWhile_all hall, hnone.1, hnone.2.2, List.append_nil]
    rw [hcall y hnone.2.1, hcall [] rfl]
  · have hb' := List.cons_ne_nil b rest
    simp only [here, takeWhile_run _ hrun hb, dropWhile_run _ hrun hb, List.append_assoc,
      List.cons_append]
    rw [← List.cons_append, call?_append before offset run hb' (isSeam_suffix hseam hb')]

/-- A text is scanned in two parts at a seam. -/
theorem scanFrom_append (before : List Char) (offset : Nat) (quotes : Quotes) {x y : List Char}
    (hseam : isSeam x y = true) :
    scanFrom before offset quotes (x ++ y) =
      scanFrom before offset quotes x ++
        scanFrom (x.reverse ++ before) (offset + width x) (quotes.passing before x) y := by
  induction x generalizing before offset quotes with
  | nil => simp [scanFrom, Quotes.passing]
  | cons c x ih =>
      have hhere := here_append before offset (List.cons_ne_nil c x) hseam
      have hrest : isSeam x y = true := by
        cases x with
        | nil => cases y <;> rfl
        | cons d x => exact isSeam_suffix (x := [c]) hseam (List.cons_ne_nil d x)
      rw [List.cons_append] at hhere
      simp only [List.cons_append, scanFrom, hhere, Quotes.passing]
      rw [ih _ _ _ hrest]
      simp [Nat.add_assoc]

/-- Two pasts that look alike, whatever is read on top of them. -/
structure LooksLike (before before' : List Char) : Prop where
  word : ∀ read, (read ++ before).head?.any isWordChar = (read ++ before').head?.any isWordChar
  escape : ∀ read, (read ++ before).head? = some '\x5c' ↔ (read ++ before').head? = some '\x5c'
  dot : ∀ read, followsDot (read ++ before) = followsDot (read ++ before')
  statement : ∀ read, opensStatement (read ++ before) = opensStatement (read ++ before')

namespace LooksLike

theorem cons {before before' : List Char} (h : LooksLike before before') (c : Char) :
    LooksLike (c :: before) (c :: before') where
  word read := by simp
  escape read := by simp
  dot read := by simpa using h.dot (read ++ [c])
  statement read := by simpa using h.statement (read ++ [c])

theorem beginsName_eq {before before' : List Char} (h : LooksLike before before') (c : Char) :
    beginsName before c = beginsName before' c := by
  have hword := h.word []
  simp only [List.nil_append] at hword
  rw [beginsName, beginsName, hword]

theorem step_eq {before before' : List Char} (h : LooksLike before before') (quotes : Quotes)
    (c : Char) : quotes.step before.head? c = quotes.step before'.head? c := by
  have hescape := h.escape []
  simp only [List.nil_append] at hescape
  simp only [Quotes.step, hescape]

theorem paren (x x' : List Char) : LooksLike ('(' :: x) ('(' :: x') where
  word read := by cases read <;> rfl
  escape read := by cases read <;> rfl
  dot read := by
    have hparen : isBlank '(' = false := by decide
    rw [Bool.eq_iff_iff, followsDot_iff, followsDot_iff]
    rcases run_cases isBlank read with hall | ⟨run, c, rest, rfl, hrun, hc⟩
    · simp [dropBlanks, dropWhile_run _ hall hparen]
    · cases rest <;> simp [dropBlanks, dropWhile_run _ hrun hc, and_assoc]
  statement read := by
    have hparen : isBlank '(' = false := by decide
    rcases run_cases isBlank read with hall | ⟨run, c, rest, rfl, hrun, hc⟩
    · simp [opensStatement, dropBlanks, dropWhile_run _ hall hparen]
    · simp [opensStatement, dropBlanks, dropWhile_run _ hrun hc]

end LooksLike

/-- What a site is told by apart from its place. -/
def outline (site : Site) : Role × String := (site.role, site.word)

private theorem outline_here {before before' : List Char} (h : LooksLike before before')
    (offset offset' : Nat) (rest : List Char) :
    (here before offset rest).map outline = (here before' offset' rest).map outline := by
  have hdot := h.dot []
  have hstatement := h.statement []
  simp only [List.nil_append] at hdot hstatement
  simp only [here, keyword?, call?, hdot, hstatement, List.map_append]
  congr 1
  · split <;> rfl
  · split
    · split <;> rfl
    · rfl

/-- Behind pasts that look alike, a text has the same sites but for their places. -/
theorem outline_scanFrom {before before' : List Char} (h : LooksLike before before')
    (offset offset' : Nat) (quotes : Quotes) (text : List Char) :
    (scanFrom before offset quotes text).map outline =
      (scanFrom before' offset' quotes text).map outline := by
  induction text generalizing before before' offset offset' quotes with
  | nil => rfl
  | cons c text ih =>
      simp only [scanFrom, List.map_append, h.beginsName_eq c, h.step_eq quotes c]
      rw [ih (h.cons c) (offset + c.utf8Size) (offset' + c.utf8Size)]
      congr 1
      split
      · exact outline_here h offset offset' (c :: text)
      · rfl

end Site

end Respell
