import Respell.Proofs.Site.Runs
import Respell.Proofs.Text.Slice

/-! # Scanning byte by byte -/

namespace Respell

open Text

/-- The offset just past the word bytes from `start` on. -/
def wordEnd (bytes : List UInt8) (start : Nat) : Nat :=
  start + ((bytes.drop start).takeWhile isWordByte).length

/-- The role of the name at a byte offset. The text is cut there only if a character begins there,
and cut again where the name ends. -/
def Role.read? (text : List Char) (position : Nat) : Option Role :=
  let bytes := encode text
  if bytes.length < position || !isBoundary bytes position then some .general
  else do
    let before ← upTo? text position
    if followsDot before.reverse then some .method
    else do
      let after ← from? text (wordEnd bytes position)
      some (if meetsParen after then .function
        else if opensStatement before.reverse then .keyword
        else .general)

def Quotes.stepByte (quotes : Quotes) (escaped : Bool) (b : UInt8) : Quotes :=
  if b = 0x22 ∧ escaped = false then { quotes with double := !quotes.double }
  else if b = 0x27 ∧ escaped = false then { quotes with single := !quotes.single }
  else quotes

namespace Site

def readKeyword? (text word : List Char) (start stop : Nat) : Option (List Site) :=
  if statementWords.contains (String.ofList word) then do
    let before ← upTo? text start
    some (if opensStatement before.reverse then
      [⟨String.ofList word, .keyword, start, ⟨start, stop⟩, String.ofList word⟩] else [])
  else some []

/-- Where a call starts: that of a method with the dot. -/
def readStart? (text : List Char) (role : Role) (start : Nat) : Option Nat :=
  if role = .method then do
    let before ← upTo? text start
    minus? (width (before.rdropWhile isBlank)) 1
  else some start

def readCall? (text word : List Char) (start stop : Nat) : Option (List Site) := do
  let rest ← from? text stop
  let gap ← minus? (width rest) (width (dropBlanks rest))
  let tail ← from? rest gap
  if tail.head? = some '(' then do
    let role ← Role.read? text start
    let first ← readStart? text role start
    let matched ← slice? text ⟨first, stop + gap + 1⟩
    some [⟨String.ofList word, if role = .method then .method else .function, start,
      ⟨first, stop + gap + 1⟩, String.ofList matched⟩]
  else some []

def readName? (text : List Char) (start stop : Nat) : Option (List Site) := do
  let word ← slice? text ⟨start, stop⟩
  let keyword ← readKeyword? text word start stop
  let call ← readCall? text word start stop
  some (keyword ++ call)

/-- What a run of word bytes is read as: nothing if it is a number or lies in a literal. -/
def readRun? (text : List Char) (quotes : Quotes) (b : UInt8) (start stop : Nat) :
    Option (List Site) :=
  if isDigitByte b then some []
  else if quotes.closed then readName? text start stop
  else (slice? text ⟨start, stop⟩).map fun _ => []

theorem lt_wordEnd {bytes : List UInt8} {i : Nat} (h : i < bytes.length)
    (hb : isWordByte bytes[i] = true) : i < wordEnd bytes i := by
  rw [wordEnd, List.drop_eq_getElem_cons h, List.takeWhile_cons_of_pos hb, List.length_cons]
  omega

def isEscaped (bytes : List UInt8) (i : Nat) : Bool := 0 < i && bytes[i - 1]? == some 0x5C

/-- The sites that a walk over the bytes from `i` on comes to. It goes from byte to byte, and past
a run of word bytes at once. -/
def readFrom? (text : List Char) (quotes : Quotes) (i : Nat) : Option (List Site) :=
  if h : i < (encode text).length then
    if hb : isWordByte (encode text)[i] = true then do
      let sites ← readRun? text quotes (encode text)[i] i (wordEnd (encode text) i)
      let later ← readFrom? text quotes (wordEnd (encode text) i)
      some (sites ++ later)
    else
      readFrom? text (quotes.stepByte (isEscaped (encode text) i) (encode text)[i]) (i + 1)
  else some []
termination_by (encode text).length - i
decreasing_by
  · have hlt := lt_wordEnd h hb
    omega
  · omega

/-- The sites of a text as a walk over its bytes finds them. -/
def read? (text : String) : Option (List Site) := readFrom? text.toList {} 0

end Site

section Cuts

variable (x y : List Char)

theorem takeWhile_isWordByte_encode :
    (encode y).takeWhile isWordByte = encode (y.takeWhile isWordChar) := by
  induction y with
  | nil => rfl
  | cons c y ih =>
      have hsplit : encode (c :: y) = String.utf8EncodeChar c ++ encode y := rfl
      by_cases hc : isWordChar c = true
      · have hascii := toNat_lt_of_isWordChar hc
        have hsingle : String.utf8EncodeChar c = [c.toUInt8] :=
          String.utf8EncodeChar_eq_singleton (utf8Size_eq_one hascii)
        have hbyte : isWordByte c.toUInt8 = true := (isWordByte_toUInt8 hascii).trans hc
        rw [List.takeWhile_cons_of_pos hc, hsplit, hsingle, List.singleton_append,
          List.takeWhile_cons_of_pos hbyte, ih]
        simp [encode, hsingle]
      · have hfirst := any_isWordByte_after [] (c :: y)
        rw [List.takeWhile_cons_of_neg hc]
        cases hbytes : encode (c :: y) with
        | nil => rfl
        | cons b bytes =>
            have hb : isWordByte b = false := by simpa [hbytes, hc] using hfirst
            rw [List.takeWhile_cons_of_neg (by simp [hb])]
            rfl

theorem wordEnd_encode :
    wordEnd (encode (x ++ y)) (width x) = width x + width (y.takeWhile isWordChar) := by
  have hdrop : (encode (x ++ y)).drop (width x) = encode y := by
    rw [encode_append, ← length_encode, List.drop_left]
  rw [wordEnd, hdrop, takeWhile_isWordByte_encode, length_encode]

theorem from?_wordEnd :
    from? (x ++ y) (width x + width (y.takeWhile isWordChar)) = some (y.dropWhile isWordChar) := by
  have hcut := from?_append (x ++ y.takeWhile isWordChar) (y.dropWhile isWordChar)
  rwa [List.append_assoc, List.takeWhile_append_dropWhile, width_append] at hcut

theorem slice?_wordEnd :
    slice? (x ++ y) ⟨width x, width x + width (y.takeWhile isWordChar)⟩ =
      some (y.takeWhile isWordChar) := by
  have hcut := slice?_append x (y.takeWhile isWordChar) (y.dropWhile isWordChar)
  rwa [List.append_assoc, List.takeWhile_append_dropWhile] at hcut

theorem Role.read?_append : Role.read? (x ++ y) (width x) = some (Role.between x.reverse y) := by
  have hboundary : isBoundary (encode (x ++ y)) (width x) = true :=
    isBoundary_encode_iff.mpr ⟨x, y, rfl, rfl⟩
  have hbound : ¬ (encode (x ++ y)).length < width x := by
    rw [length_encode, width_append]
    omega
  simp only [Role.read?, hboundary, hbound, upTo?_append, wordEnd_encode, from?_wordEnd]
  by_cases hdot : followsDot x.reverse = true
  · simp [Role.between, hdot]
  · simp [Role.between, hdot]

end Cuts

theorem Role.read?_eq_atOffset (text : String) (position : Nat) :
    Role.read? text.toList position = some (Role.atOffset text position) := by
  by_cases hcut : ∃ x y, text.toList = x ++ y ∧ position = width x
  · obtain ⟨x, y, htext, rfl⟩ := hcut
    rw [Role.atOffset, htext, Role.read?_append, splitAt?_append]
  · have hboundary : isBoundary (encode text.toList) position = false := by
      rw [Bool.eq_false_iff]
      exact mt isBoundary_encode_iff.mp hcut
    have hnone : splitAt? text.toList position = none := by
      cases hsplit : splitAt? text.toList position with
      | none => rfl
      | some parts => exact absurd ⟨_, _, (splitAt?_eq_some_iff _ _ _ _).mp hsplit⟩ hcut
    simp [Role.read?, Role.atOffset, hboundary, hnone]

namespace Site

section Name

variable (x y : List Char)

theorem readKeyword?_eq (word : List Char) :
    readKeyword? (x ++ y) word (width x) (width x + width word) =
      some (keyword? x.reverse (width x) word).toList := by
  simp only [readKeyword?, keyword?, upTo?_append, List.contains_iff_mem]
  by_cases hword : String.ofList word ∈ statementWords
  · by_cases hopens : opensStatement x.reverse = true
    · simp [hword, hopens]
    · simp [hword, hopens]
  · simp [hword]

theorem minus?_dropBlanks (after : List Char) :
    minus? (width after) (width (dropBlanks after)) = some (width (after.takeWhile isBlank)) := by
  have hwidth : width after = width (after.takeWhile isBlank) + width (dropBlanks after) := by
    rw [← width_append, dropBlanks, List.takeWhile_append_dropWhile]
  rw [hwidth, minus?_add]

theorem from?_gap (after : List Char) :
    from? after (width (after.takeWhile isBlank)) = some (dropBlanks after) := by
  have hcut := from?_append (after.takeWhile isBlank) (dropBlanks after)
  rwa [dropBlanks, List.takeWhile_append_dropWhile] at hcut

theorem readStart?_method {rest blanks : List Char} (hblanks : ∀ c ∈ blanks, isBlank c = true) :
    readStart? (rest ++ '.' :: blanks ++ y) .method (width (rest ++ '.' :: blanks)) =
      some (width rest) := by
  have hdot : isBlank '.' = false := by decide
  have hpoint : '.'.utf8Size = 1 := by decide
  have hfront : (rest ++ '.' :: blanks).rdropWhile isBlank = rest ++ ['.'] := by
    rw [List.rdropWhile, List.reverse_append, List.reverse_cons, List.append_assoc,
      List.singleton_append,
      dropWhile_run _ (fun c hc => hblanks c (List.mem_reverse.mp hc)) hdot]
    simp
  simp only [readStart?, upTo?_append, if_true, Option.bind_eq_bind, Option.bind_some, hfront]
  rw [width_append, width_cons, width_nil, hpoint, minus?_add]

theorem slice?_paren (front lead word gap tail : List Char) :
    slice? (front ++ lead ++ (word ++ gap ++ ['('] ++ tail))
        ⟨width front, width (front ++ lead) + width word + width gap + 1⟩ =
      some (lead ++ (word ++ gap ++ ['('])) := by
  have hparen : '('.utf8Size = 1 := by decide
  have hcut := slice?_append front (lead ++ (word ++ gap ++ ['('])) tail
  simpa [hparen, Nat.add_assoc] using hcut

theorem readCall?_eq :
    readCall? (x ++ y) (y.takeWhile isWordChar) (width x)
        (width x + width (y.takeWhile isWordChar)) =
      some (call? x.reverse (width x) (y.takeWhile isWordChar)
        (y.dropWhile isWordChar)).toList := by
  have hparen : '('.utf8Size = 1 := by decide
  have hread := List.takeWhile_append_dropWhile (p := isWordChar) (l := y)
  have hrest := from?_wordEnd x y
  have hrole := Role.read?_append x y
  rw [Role.between] at hrole
  generalize y.takeWhile isWordChar = word at hread hrest
  generalize y.dropWhile isWordChar = after at hread hrest hrole
  simp only [readCall?, hrest, Option.bind_eq_bind, Option.bind_some, minus?_dropBlanks,
    from?_gap, hrole]
  by_cases hmeets : meetsParen after = true
  · have hhead : (dropBlanks after).head? = some '(' := by simpa [meetsParen] using hmeets
    obtain ⟨tail, htail⟩ := (meetsParen_iff after).mp hmeets
    have hy : y = word ++ after.takeWhile isBlank ++ ['('] ++ tail := by
      rw [← hread, List.append_assoc, List.append_assoc, ← List.append_assoc _ ['('], htail]
    rw [if_pos hhead]
    by_cases hdot : followsDot x.reverse = true
    · obtain ⟨rest, blanks, rfl, hblanks, -⟩ := exists_dot_of_followsDot hdot
      have hpoint : isBlank '.' = false := by decide
      have hback : (rest ++ '.' :: blanks).reverse.takeWhile isBlank = blanks.reverse := by
        rw [List.reverse_append, List.reverse_cons, List.append_assoc, List.singleton_append,
          takeWhile_run _ (fun c hc => hblanks c (List.mem_reverse.mp hc)) hpoint]
      have hslice := slice?_paren rest ('.' :: blanks) word (after.takeWhile isBlank) tail
      rw [← hy] at hslice
      simp only [hdot, if_true, readStart?_method y hblanks, Option.bind_some, hslice, call?,
        hmeets, hback]
      simp [hparen, Nat.add_assoc]
    · have hslice := slice?_paren x [] word (after.takeWhile isBlank) tail
      rw [← hy, List.append_nil] at hslice
      have hstart : readStart? (x ++ y) .function (width x) = some (width x) := rfl
      simp only [hdot, hmeets, if_true, Bool.false_eq_true, if_false, call?, hstart, hslice,
        Option.bind_some]
      simp [hparen, Nat.add_assoc]
  · have hhead : (dropBlanks after).head? ≠ some '(' := by simpa [meetsParen] using hmeets
    rw [if_neg hhead, call?, if_neg hmeets]
    rfl

theorem readName?_eq :
    readName? (x ++ y) (width x) (width x + width (y.takeWhile isWordChar)) =
      some (here x.reverse (width x) y) := by
  simp only [readName?, slice?_wordEnd, readKeyword?_eq, readCall?_eq, Option.bind_eq_bind,
    Option.bind_some, here]

end Name

section Step

variable {text : List Char} {i : Nat} {b : UInt8} (quotes : Quotes)
  (h : (encode text)[i]? = some b)

include h

theorem readFrom?_step (hword : isWordByte b = false) :
    readFrom? text quotes i =
      readFrom? text (quotes.stepByte (isEscaped (encode text) i) b) (i + 1) := by
  obtain ⟨hi, rfl⟩ := List.getElem?_eq_some_iff.mp h
  conv => lhs; rw [readFrom?, dif_pos hi, dif_neg (by simp [hword])]

theorem readFrom?_word (hword : isWordByte b = true) :
    readFrom? text quotes i =
      (readRun? text quotes b i (wordEnd (encode text) i)).bind fun sites =>
        (readFrom? text quotes (wordEnd (encode text) i)).map (sites ++ ·) := by
  obtain ⟨hi, rfl⟩ := List.getElem?_eq_some_iff.mp h
  conv => lhs; rw [readFrom?, dif_pos hi, dif_pos hword]
  simp only [Option.map_eq_bind]
  rfl

theorem readFrom?_other (hword : isWordByte b = false) (hquote : b ≠ 0x22 ∧ b ≠ 0x27) :
    readFrom? text quotes i = readFrom? text quotes (i + 1) := by
  rw [readFrom?_step quotes h hword]
  simp [Quotes.stepByte, hquote]

end Step

section Walk

variable {x y : List Char} {c : Char} (quotes : Quotes)

theorem getElem?_encode_ascii (hascii : c.toNat < 128) :
    (encode (x ++ c :: y))[width x]? = some c.toUInt8 := by
  rw [getElem?_encode_char (Nat.le_refl _) (Nat.lt_add_of_pos_right c.utf8Size_pos), Nat.sub_self,
    String.utf8EncodeChar_eq_singleton (utf8Size_eq_one hascii)]
  rfl

theorem readFrom?_char (hword : isWordChar c = false) (hplain : Quotes.isPlain c = true) :
    readFrom? (x ++ c :: y) quotes (width x) =
      readFrom? (x ++ c :: y) quotes (width x + c.utf8Size) := by
  have hall : ∀ k ≤ c.utf8Size, readFrom? (x ++ c :: y) quotes (width x) =
      readFrom? (x ++ c :: y) quotes (width x + k) := by
    intro k
    induction k with
    | zero => intro _; rfl
    | succ k ih =>
        intro hk
        have hstart : width x ≤ width x + k := Nat.le_add_right _ _
        have hstop : width x + k < width x + c.utf8Size := by omega
        have hlt : width x + k < (encode (x ++ c :: y)).length := by
          rw [length_encode, width_append, width_cons]
          omega
        have hbyte := List.getElem?_eq_getElem hlt
        have hnone : isWordByte (encode (x ++ c :: y))[width x + k] = false := by
          have hany := any_isWordByte_encode (y := y) hstart hstop
          simpa [hbyte, hword] using hany
        rw [ih (by omega), readFrom?_other quotes hbyte hnone
          (Quotes.ne_quote_of_isPlain hstart hstop hplain hbyte)]
        rfl
  exact hall c.utf8Size (Nat.le_refl _)

theorem isEscaped_encode :
    isEscaped (encode (x ++ y)) (width x) = decide (x.reverse.head? = some '\x5c') := by
  rw [List.head?_reverse]
  by_cases hx : x = []
  · simp [hx, isEscaped]
  · obtain ⟨u, d, rfl⟩ : ∃ u d, x = u ++ [d] :=
      ⟨x.dropLast, x.getLast hx, (List.dropLast_concat_getLast hx).symm⟩
    have hpos : 0 < width (u ++ [d]) := width_pos hx
    have hwidth : width (u ++ [d]) = width u + d.utf8Size := by simp
    rw [List.getLast?_concat, Bool.eq_iff_iff, decide_eq_true_iff, Option.some.injEq, isEscaped,
      Bool.and_eq_true, decide_eq_true_iff, beq_iff_eq, List.append_assoc, List.singleton_append]
    constructor
    · intro h
      have hd := d.utf8Size_pos
      exact eq_of_getElem?_encode (d := '\x5c') (by decide) (by omega) (by omega) h.2
    · intro hd
      have hascii : d.toNat < 128 := by
        rw [hd]
        decide
      have hplace : width (u ++ [d]) - 1 = width u := by
        rw [hwidth, utf8Size_eq_one hascii, Nat.add_sub_cancel]
      rw [hplace, getElem?_encode_ascii hascii]
      exact ⟨hpos, by rw [hd]; rfl⟩

theorem stepByte_eq_step (previous : Option Char) (hquote : c = '\x22' ∨ c = '\x27') :
    quotes.stepByte (decide (previous = some '\x5c')) c.toUInt8 = quotes.step previous c := by
  have hdouble : '\x22'.toUInt8 = 0x22 := by decide
  have hsingle : '\x27'.toUInt8 = 0x27 := by decide
  by_cases hescape : previous = some '\x5c'
  · simp [Quotes.stepByte, Quotes.step, hescape]
  · rcases hquote with rfl | rfl
    · simp [Quotes.stepByte, Quotes.step, hescape, hdouble]
    · simp [Quotes.stepByte, Quotes.step, hescape, hsingle]

theorem readFrom?_quote (hplain : Quotes.isPlain c = false) :
    readFrom? (x ++ c :: y) quotes (width x) =
      readFrom? (x ++ c :: y) (quotes.step x.reverse.head? c) (width x + c.utf8Size) := by
  have hcases : c = '\x22' ∨ c = '\x27' := by
    simpa [Quotes.isPlain, Classical.or_iff_not_imp_left] using hplain
  have hascii : c.toNat < 128 := by
    rcases hcases with rfl | rfl <;> decide
  have hword : isWordByte c.toUInt8 = false := by
    rcases hcases with rfl | rfl <;> decide
  rw [readFrom?_step quotes (getElem?_encode_ascii hascii) hword, isEscaped_encode,
    stepByte_eq_step _ _ hcases, utf8Size_eq_one hascii]

/-- What the scan reports of the name at the head of a text, unless it lies in a literal. -/
def reported (x : List Char) (c : Char) (y : List Char) (quotes : Quotes) : List Site :=
  if beginsName x.reverse c && quotes.closed then here x.reverse (width x) (c :: y) else []

section Word

variable (hword : isWordChar c = true)

include hword

theorem readRun?_eq (hbefore : x.reverse.head?.any isWordChar = false) :
    readRun? (x ++ c :: y) quotes c.toUInt8 (width x)
        (width x + width ((c :: y).takeWhile isWordChar)) = some (reported x c y quotes) := by
  have hdigit := isDigitByte_toUInt8 (toNat_lt_of_isWordChar hword)
  rw [readRun?, hdigit, readName?_eq, slice?_wordEnd, reported, beginsName, hword, hbefore]
  cases c.isDigit <;> cases quotes.closed <;> rfl

theorem readFrom?_run (hbefore : x.reverse.head?.any isWordChar = false) :
    readFrom? (x ++ c :: y) quotes (width x) =
      (readFrom? (x ++ c :: y) quotes (width x + width ((c :: y).takeWhile isWordChar))).map
        (reported x c y quotes ++ ·) := by
  have hascii := toNat_lt_of_isWordChar hword
  have hbyte := (isWordByte_toUInt8 hascii).trans hword
  rw [readFrom?_word quotes (getElem?_encode_ascii hascii) hbyte, wordEnd_encode,
    readRun?_eq quotes hword hbefore, Option.bind_some]

theorem scanFrom_run :
    scanFrom x.reverse (width x) quotes (c :: y) =
      reported x c y quotes ++
        scanFrom (x ++ (c :: y).takeWhile isWordChar).reverse
          (width x + width ((c :: y).takeWhile isWordChar)) quotes (y.dropWhile isWordChar) := by
  have hall : ∀ d ∈ y.takeWhile isWordChar, isWordChar d = true :=
    List.all_eq_true.mp List.all_takeWhile
  have hstep := quotes.step_of_isPlain x.reverse.head? (Quotes.isPlain_of_isWordChar hword)
  have hinside : (c :: x.reverse).head?.any isWordChar = true := by simpa using hword
  have hrest := scanFrom_rest_of_name hinside hall (width x + c.utf8Size) quotes
    (y.dropWhile isWordChar)
  rw [List.takeWhile_append_dropWhile] at hrest
  rw [scanFrom, hstep, hrest, reported, List.takeWhile_cons_of_pos hword]
  simp [Nat.add_assoc]

end Word

end Walk

/-- From any place that is not inside of a name, the walk finds what the scan reports. -/
theorem readFrom?_eq_scanFrom (x y : List Char) (quotes : Quotes)
    (hplace : x.reverse.head?.any isWordChar = false ∨ y.head?.any isWordChar = false) :
    readFrom? (x ++ y) quotes (width x) = some (scanFrom x.reverse (width x) quotes y) := by
  induction hlength : y.length using Nat.strong_induction_on generalizing x y quotes with
  | _ n ih =>
    subst hlength
    cases y with
    | nil =>
        rw [readFrom?, dif_neg (by simp [length_encode])]
        rfl
    | cons c y =>
        by_cases hword : isWordChar c = true
        · have hbefore : x.reverse.head?.any isWordChar = false := by simpa [hword] using hplace
          have hread := List.takeWhile_append_dropWhile (p := isWordChar) (l := c :: y)
          rw [List.dropWhile_cons_of_pos hword] at hread
          have hshorter : (y.dropWhile isWordChar).length < (c :: y).length :=
            Nat.lt_succ_of_le (List.dropWhile_suffix _).length_le
          have hnext := ih _ hshorter (x ++ (c :: y).takeWhile isWordChar)
            (y.dropWhile isWordChar) quotes (Or.inr ?_) rfl
          · rw [List.append_assoc, hread, width_append] at hnext
            rw [readFrom?_run quotes hword hbefore, hnext, scanFrom_run quotes hword]
            rfl
          · cases hdrop : y.dropWhile isWordChar with
            | nil => rfl
            | cons d rest =>
                have hd := List.head?_dropWhile_not isWordChar y
                rw [hdrop] at hd
                simpa using hd
        · have hnone : isWordChar c = false := by simpa using hword
          have hnext := fun quotes' => ih y.length (Nat.lt_succ_self _) (x ++ [c]) y quotes'
            (Or.inl (by simp [hnone])) rfl
          have hscan : scanFrom x.reverse (width x) quotes (c :: y) =
              scanFrom (x ++ [c]).reverse (width (x ++ [c])) (quotes.step x.reverse.head? c) y := by
            rw [scanFrom]
            simp [beginsName, hnone]
          simp only [List.append_assoc, List.singleton_append] at hnext
          rw [hscan]
          cases hplain : Quotes.isPlain c with
          | false =>
              rw [readFrom?_quote quotes hplain, ← hnext]
              simp
          | true =>
              rw [readFrom?_char quotes hnone hplain, quotes.step_of_isPlain _ hplain, ← hnext]
              simp

theorem read?_eq_scan (text : String) : read? text = some (scan text) :=
  readFrom?_eq_scanFrom [] text.toList {} (Or.inl rfl)

end Site

end Respell
