import Respell.Proofs.Site.Seam

namespace Respell

open Text

/-- Letters, digits and underscores, of which the first one is no digit. -/
def isName (cs : List Char) : Bool := cs.all isWordChar && cs.head?.any (!·.isDigit)

theorem isName_cases {cs : List Char} (h : isName cs = true) :
    ∃ c rest, cs = c :: rest ∧ isWordChar c = true ∧ c.isDigit = false ∧
      ∀ d ∈ rest, isWordChar d = true := by
  cases cs with
  | nil => simp [isName] at h
  | cons c rest =>
      obtain ⟨⟨hc, hrest⟩, hdigit⟩ :
          (isWordChar c = true ∧ ∀ d ∈ rest, isWordChar d = true) ∧ c.isDigit = false := by
        simpa [isName] using h
      exact ⟨c, rest, rfl, hc, hdigit, hrest⟩

theorem isWordChar_of_isName {cs : List Char} (h : isName cs = true) :
    ∀ c ∈ cs, isWordChar c = true := by
  have hall : cs.all isWordChar = true := by
    simp only [isName, Bool.and_eq_true] at h
    exact h.1
  simpa using hall

theorem isName_takeWhile {c : Char} (hword : isWordChar c = true) (hdigit : c.isDigit = false)
    (rest : List Char) : isName ((c :: rest).takeWhile isWordChar) = true := by
  have hall := List.all_takeWhile (p := isWordChar) (l := c :: rest)
  have hhead : ((c :: rest).takeWhile isWordChar).head? = some c := by
    rw [List.takeWhile_cons_of_pos hword]
    rfl
  simp [isName, hall, hhead, hdigit]

namespace Site

def isCall (site : Site) : Bool := site.role == .method || site.role == .function

def callsFrom (before : List Char) (offset : Nat) (quotes : Quotes) (text : List Char) :
    List Site :=
  (scanFrom before offset quotes text).filter isCall

def calls (text : String) : List Site := callsFrom [] 0 {} text.toList

theorem callsFrom_append (before : List Char) (offset : Nat) (quotes : Quotes) {x y : List Char}
    (hseam : isSeam x y = true) :
    callsFrom before offset quotes (x ++ y) =
      callsFrom before offset quotes x ++
        callsFrom (x.reverse ++ before) (offset + width x) (quotes.passing before x) y := by
  rw [callsFrom, scanFrom_append before offset quotes hseam, List.filter_append]
  rfl

theorem outline_callsFrom {before before' : List Char} (h : LooksLike before before')
    (offset offset' : Nat) (quotes : Quotes) (text : List Char) :
    (callsFrom before offset quotes text).map outline =
      (callsFrom before' offset' quotes text).map outline := by
  have hfilter : ∀ sites : List Site, (sites.filter isCall).map outline =
      (sites.map outline).filter fun entry => entry.1 == .method || entry.1 == .function := by
    intro sites
    rw [List.filter_map]
    rfl
  rw [callsFrom, callsFrom, hfilter, hfilter, outline_scanFrom h]

theorem scanFrom_of_not_word (before : List Char) (offset : Nat) (quotes : Quotes)
    {x : List Char} (hx : ∀ c ∈ x, isWordChar c = false) :
    scanFrom before offset quotes x = [] := by
  induction x generalizing before offset quotes with
  | nil => rfl
  | cons c x ih =>
      have hc : isWordChar c = false := hx c (by simp)
      rw [scanFrom, ih _ _ _ fun d hd => hx d (by simp [hd])]
      simp [beginsName, hc]

theorem scanFrom_rest_of_name {before run : List Char} (hbefore : before.head?.any isWordChar = true)
    (hrun : ∀ c ∈ run, isWordChar c = true) (offset : Nat) (quotes : Quotes) (y : List Char) :
    scanFrom before offset quotes (run ++ y) =
      scanFrom (run.reverse ++ before) (offset + width run) quotes y := by
  induction run generalizing before offset with
  | nil => simp
  | cons c run ih =>
      have hc := hrun c (by simp)
      have hbegins : beginsName before c = false := by simp [beginsName, hbefore]
      have hstep := quotes.step_of_isPlain before.head? (Quotes.isPlain_of_isWordChar hc)
      rw [List.cons_append, scanFrom, hbegins, hstep,
        ih (by simpa using hc) fun d hd => hrun d (by simp [hd])]
      simp [Nat.add_assoc]

theorem not_isWordChar_gap {gap : List Char} (hgap : ∀ c ∈ gap, isBlank c = true) :
    ∀ c ∈ gap ++ ['('], isWordChar c = false := by
  intro c hc
  rcases List.mem_append.mp hc with hmem | hmem
  · exact isWordChar_eq_false_of_isBlank (hgap c hmem)
  · obtain rfl : c = '(' := by simpa using hmem
    decide

theorem exists_gap_of_meetsParen {after : List Char} (h : meetsParen after = true) :
    ∃ gap y, after = gap ++ ['('] ++ y ∧ ∀ c ∈ gap, isBlank c = true := by
  simp only [meetsParen, dropBlanks, beq_iff_eq] at h
  obtain ⟨y, hy⟩ := List.head?_eq_some_iff.mp h
  refine ⟨after.takeWhile isBlank, y, ?_, List.all_eq_true.mp List.all_takeWhile⟩
  rw [List.append_assoc, List.singleton_append, ← hy, List.takeWhile_append_dropWhile]

theorem meetsParen_gap {gap : List Char} (hgap : ∀ c ∈ gap, isBlank c = true) (y : List Char) :
    meetsParen (gap ++ '(' :: y) = true := by
  have hparen : isBlank '(' = false := by decide
  simp [meetsParen, dropBlanks, dropWhile_run y hgap hparen]

theorem here_call (before : List Char) (offset : Nat) {name gap : List Char}
    (hname : isName name = true) (hgap : ∀ c ∈ gap, isBlank c = true) :
    here before offset (name ++ (gap ++ ['('])) =
      (keyword? before offset name).toList ++
        (call? before offset name (gap ++ ['('])).toList := by
  have hword := isWordChar_of_isName hname
  obtain ⟨c, rest, heq⟩ : ∃ c rest, gap ++ ['('] = c :: rest := by cases gap <;> simp
  have hc : isWordChar c = false := not_isWordChar_gap hgap c (by simp [heq])
  rw [here, heq, takeWhile_run rest hword hc, dropWhile_run rest hword hc]

theorem isCall_of_keyword? {before : List Char} {offset : Nat} {word : List Char} {site : Site}
    (h : keyword? before offset word = some site) : site.isCall = false := by
  unfold keyword? at h
  split at h
  · obtain rfl := Option.some.inj h
    rfl
  · simp at h

theorem isCall_of_call? {before : List Char} {offset : Nat} {word after : List Char}
    {site : Site} (h : call? before offset word after = some site) : site.isCall = true := by
  unfold call? at h
  split at h
  · split at h
    · obtain rfl := Option.some.inj h
      rfl
    · obtain rfl := Option.some.inj h
      rfl
  · simp at h

theorem filter_isCall_sites (before : List Char) (offset : Nat) (word after : List Char) :
    ((keyword? before offset word).toList ++ (call? before offset word after).toList).filter
      isCall = (call? before offset word after).toList := by
  rw [List.filter_append]
  have hkeyword : (keyword? before offset word).toList.filter isCall = [] := by
    cases hsite : keyword? before offset word with
    | none => rfl
    | some site => simp [isCall_of_keyword? hsite]
  have hcall : (call? before offset word after).toList.filter isCall =
      (call? before offset word after).toList := by
    cases hsite : call? before offset word after with
    | none => rfl
    | some site => simp [isCall_of_call? hsite]
  rw [hkeyword, hcall, List.nil_append]

end Site

/-- A call of a function or, with the blanks after its dot, of a method. -/
structure Call where
  blanks? : Option (List Char)
  name : List Char
  gap : List Char
  blanks_blank : ∀ c ∈ blanks?.getD [], isBlank c = true
  name_isName : isName name = true
  gap_blank : ∀ c ∈ gap, isBlank c = true

namespace Call

def role (call : Call) : Role := if call.blanks?.isSome then .method else .function

/-- The dot and the blanks before the name of a method. -/
def lead (call : Call) : List Char :=
  match call.blanks? with
  | some blanks => '.' :: blanks
  | none => []

def chars (call : Call) : List Char := call.lead ++ (call.name ++ (call.gap ++ ['(']))

def site (call : Call) (start : Nat) : Site where
  word := String.ofList call.name
  role := call.role
  offset := start + width call.lead
  span := ⟨start, start + width call.chars⟩
  matched := String.ofList call.chars

/-- The dot of a method is a single one, and a function has neither a dot nor a name in front. -/
def StandsAfter (call : Call) (before : List Char) : Prop :=
  match call.blanks? with
  | some _ => before.head? ≠ some '.'
  | none => before.head?.any isWordChar = false ∧ followsDot before = false

theorem eq_dot_or_isBlank (call : Call) {c : Char} (hc : c ∈ call.lead) :
    c = '.' ∨ isBlank c = true := by
  unfold lead at hc
  split at hc
  · rename_i blanks hblanks
    rcases List.mem_cons.mp hc with hdot | hmem
    · exact Or.inl hdot
    · exact Or.inr (call.blanks_blank c (by simpa [hblanks] using hmem))
  · simp at hc

theorem not_isWordChar_lead (call : Call) : ∀ c ∈ call.lead, isWordChar c = false := by
  intro c hc
  rcases call.eq_dot_or_isBlank hc with rfl | hblank
  · decide
  · exact isWordChar_eq_false_of_isBlank hblank

theorem isPlain_of_mem_lead (call : Call) : ∀ c ∈ call.lead, Quotes.isPlain c = true := by
  intro c hc
  rcases call.eq_dot_or_isBlank hc with rfl | hblank
  · decide
  · exact Quotes.isPlain_of_isBlank hblank

theorem isPlain_of_mem_chars (call : Call) : ∀ c ∈ call.chars, Quotes.isPlain c = true := by
  intro c hc
  simp only [chars, List.mem_append, List.mem_singleton] at hc
  rcases hc with hlead | hname | hgap | rfl
  · exact call.isPlain_of_mem_lead c hlead
  · exact Quotes.isPlain_of_isWordChar (isWordChar_of_isName call.name_isName c hname)
  · exact Quotes.isPlain_of_isBlank (call.gap_blank c hgap)
  · decide

theorem name_not_continued (call : Call) {before : List Char} (h : call.StandsAfter before) :
    (call.lead.reverse ++ before).head?.any isWordChar = false := by
  cases hblanks : call.blanks? with
  | none =>
      simp only [StandsAfter, hblanks] at h
      simpa [lead, hblanks] using h.1
  | some blanks =>
      have hne : call.lead.reverse ≠ [] := by simp [lead, hblanks]
      obtain ⟨c, rest, heq⟩ := List.exists_cons_of_ne_nil hne
      have hc : c ∈ call.lead := by
        rw [← List.mem_reverse, heq]
        simp
      simpa [heq] using call.not_isWordChar_lead c hc

theorem isSeam_name (x : List Char) {name y : List Char} (hname : isName name = true)
    (hx : x.getLast?.any isWordChar = false) : Site.isSeam x (name ++ y) = true := by
  obtain ⟨c, rest, rfl, hc, -, -⟩ := isName_cases hname
  have hblank := isBlank_eq_false_of_isWordChar hc
  have hparen : c ≠ '(' := ne_of_isWordChar hc (by decide)
  unfold Site.isSeam
  split
  · rename_i a b ha hb
    obtain rfl : c = b := by simpa using hb
    have hword : isWordChar a = false := by simpa [ha] using hx
    simp [hword, hblank, hparen]
  · rfl

theorem isSeam_chars (call : Call) {x before : List Char}
    (h : call.StandsAfter (x.reverse ++ before)) : Site.isSeam x call.chars = true := by
  cases hblanks : call.blanks? with
  | none =>
      simp only [StandsAfter, hblanks] at h
      rw [chars, lead, hblanks]
      apply isSeam_name x call.name_isName
      rw [← List.head?_reverse]
      cases hlast : x.reverse.head? with
      | none => rfl
      | some a => simpa [hlast] using h.1
  | some blanks =>
      rw [chars, lead, hblanks]
      exact Site.isSeam_dot x _

theorem call?_eq_site (call : Call) {before : List Char} (h : call.StandsAfter before)
    (start : Nat) :
    Site.call? (call.lead.reverse ++ before) (start + width call.lead) call.name
      (call.gap ++ ['(']) = some (call.site start) := by
  have hparen : isBlank '(' = false := by decide
  have hgap : (call.gap ++ ['(']).takeWhile isBlank = call.gap :=
    takeWhile_run [] call.gap_blank hparen
  rw [Site.call?, if_pos (Site.meetsParen_gap call.gap_blank []), hgap]
  cases hblanks : call.blanks? with
  | none =>
      simp only [StandsAfter, hblanks] at h
      have hlead : call.lead = [] := by simp [lead, hblanks]
      simp [hlead, h.2, site, role, chars, hblanks]
  | some blanks =>
      simp only [StandsAfter, hblanks] at h
      have hdot : isBlank '.' = false := by decide
      have hall : ∀ c ∈ blanks.reverse, isBlank c = true := by
        intro c hc
        exact call.blanks_blank c (by simpa [hblanks] using hc)
      have hlead : call.lead.reverse ++ before = blanks.reverse ++ '.' :: before := by
        simp [lead, hblanks]
      have hfollows : followsDot (blanks.reverse ++ '.' :: before) = true :=
        (followsDot_iff _).mpr ⟨before, dropWhile_run before hall hdot, h⟩
      rw [hlead, if_pos hfollows, takeWhile_run before hall hdot, List.reverse_reverse]
      simp [lead, site, role, chars, hblanks, Nat.add_assoc]

/-- A call has its own site, after that of a keyword if its name is one. -/
theorem scanFrom_chars (call : Call) {before : List Char} (h : call.StandsAfter before)
    (offset : Nat) {quotes : Quotes} (hclosed : quotes.closed = true) :
    Site.scanFrom before offset quotes call.chars =
      (Site.keyword? (call.lead.reverse ++ before) (offset + width call.lead) call.name).toList ++
        [call.site offset] := by
  have hcontinued := call.name_not_continued h
  have hlast : call.lead.getLast?.any isWordChar = false := by
    cases hlead : call.lead.getLast? with
    | none => rfl
    | some c => simpa using call.not_isWordChar_lead c (List.mem_of_getLast? hlead)
  rw [chars, Site.scanFrom_append before offset quotes (isSeam_name _ call.name_isName hlast),
    Site.scanFrom_of_not_word before offset quotes call.not_isWordChar_lead, List.nil_append,
    Quotes.passing_of_isPlain quotes before call.isPlain_of_mem_lead]
  obtain ⟨c, rest, hname, hc, hdigit, hrest⟩ := isName_cases call.name_isName
  have hhere := Site.here_call (call.lead.reverse ++ before) (offset + width call.lead)
    call.name_isName call.gap_blank
  rw [call.call?_eq_site h] at hhere
  have hbegins : Site.beginsName (call.lead.reverse ++ before) c = true := by
    simp only [Site.beginsName, hc, hdigit, hcontinued]
    rfl
  have hinside : (c :: (call.lead.reverse ++ before)).head?.any isWordChar = true := by
    simpa using hc
  have htail := Site.scanFrom_rest_of_name hinside hrest
    (offset + width call.lead + c.utf8Size) (quotes.step (call.lead.reverse ++ before).head? c)
    (call.gap ++ ['('])
  rw [Site.scanFrom_of_not_word _ _ _ (Site.not_isWordChar_gap call.gap_blank)] at htail
  rw [hname, List.cons_append] at hhere ⊢
  rw [Site.scanFrom, htail, hbegins, hclosed, hhere]
  simp

theorem callsFrom_chars (call : Call) {before : List Char} (h : call.StandsAfter before)
    (offset : Nat) {quotes : Quotes} (hclosed : quotes.closed = true) :
    Site.callsFrom before offset quotes call.chars = [call.site offset] := by
  have hfilter := Site.filter_isCall_sites (call.lead.reverse ++ before)
    (offset + width call.lead) call.name (call.gap ++ ['('])
  rw [call.call?_eq_site h] at hfilter
  rw [Site.callsFrom, call.scanFrom_chars h offset hclosed]
  exact hfilter

theorem chars_eq_append_paren (call : Call) : ∃ x, call.chars = x ++ ['('] :=
  ⟨call.lead ++ (call.name ++ call.gap), by simp [chars]⟩

theorem width_chars_pos (call : Call) : 0 < width call.chars :=
  width_pos (by simp [chars])

theorem callsFrom_append_chars (call : Call) (before : List Char) (offset : Nat)
    (quotes : Quotes) {x : List Char} (h : call.StandsAfter (x.reverse ++ before))
    (hclosed : (quotes.passing before x).closed = true) (y : List Char) :
    Site.callsFrom before offset quotes (x ++ call.chars ++ y) =
      Site.callsFrom before offset quotes x ++ call.site (offset + width x) ::
        Site.callsFrom (call.chars.reverse ++ (x.reverse ++ before))
          (offset + width x + width call.chars) (quotes.passing before x) y := by
  have hparen : Site.isSeam call.chars y = true := by
    obtain ⟨z, hz⟩ := call.chars_eq_append_paren
    rw [hz]
    exact Site.isSeam_paren z y
  have hseam : Site.isSeam x (call.chars ++ y) = true := by
    have hx := call.isSeam_chars h
    obtain ⟨d, rest, hd⟩ : ∃ d rest, call.chars = d :: rest := by
      apply List.exists_cons_of_ne_nil
      simp [chars]
    rw [hd] at hx ⊢
    exact hx
  rw [List.append_assoc, Site.callsFrom_append before offset quotes hseam,
    Site.callsFrom_append _ _ _ hparen, call.callsFrom_chars h _ hclosed,
    Quotes.passing_of_isPlain _ _ call.isPlain_of_mem_chars, List.singleton_append]

end Call

namespace Site

private def callHere (before : List Char) (offset : Nat) (quotes : Quotes) (c : Char)
    (rest : List Char) : List Site :=
  (if beginsName before c && quotes.closed then here before offset (c :: rest) else []).filter
    isCall

private theorem callsFrom_cons (before : List Char) (offset : Nat) (quotes : Quotes) (c : Char)
    (rest : List Char) :
    callsFrom before offset quotes (c :: rest) =
      callHere before offset quotes c rest ++
        callsFrom (c :: before) (offset + c.utf8Size) (quotes.step before.head? c) rest := by
  rw [callsFrom, scanFrom, List.filter_append]
  rfl

private theorem callHere_eq_append_cons {before : List Char} {offset : Nat} {quotes : Quotes}
    {c : Char} {rest : List Char} {front back : List Site} {site : Site}
    (h : callHere before offset quotes c rest = front ++ site :: back) :
    front = [] ∧ back = [] ∧ beginsName before c = true ∧ quotes.closed = true ∧
      ∃ name gap y, c :: rest = name ++ (gap ++ ['(']) ++ y ∧ isName name = true ∧
        (∀ d ∈ gap, isBlank d = true) ∧
        call? before offset name (gap ++ ['(']) = some site := by
  unfold callHere at h
  split at h
  · rename_i hbegins
    obtain ⟨hbegins, hclosed⟩ : beginsName before c = true ∧ quotes.closed = true := by
      simpa using hbegins
    obtain ⟨hword, hdigit⟩ : isWordChar c = true ∧ c.isDigit = false := by
      simp only [beginsName, Bool.and_eq_true, Bool.not_eq_true'] at hbegins
      exact hbegins.1
    rw [here, filter_isCall_sites] at h
    generalize hname : (c :: rest).takeWhile isWordChar = name at h
    generalize hafter : (c :: rest).dropWhile isWordChar = after at h
    obtain ⟨found, hfound⟩ : ∃ found, call? before offset name after = some found := by
      cases hcall : call? before offset name after with
      | none => simp [hcall] at h
      | some found => exact ⟨found, rfl⟩
    have hsingle : front = [] ∧ site = found ∧ back = [] := by
      rw [hfound, Option.toList_some] at h
      cases front with
      | nil =>
          obtain ⟨heq, hnil⟩ := List.cons.inj h
          exact ⟨rfl, heq.symm, hnil.symm⟩
      | cons first front => simp at h
    obtain ⟨hfront, rfl, hback⟩ := hsingle
    have hparen : meetsParen after = true := by
      cases hmeets : meetsParen after with
      | false => simp [call?, hmeets] at hfound
      | true => rfl
    obtain ⟨gap, y, rfl, hgap⟩ := exists_gap_of_meetsParen hparen
    refine ⟨hfront, hback, hbegins, hclosed, name, gap, y, ?_, ?_, hgap, ?_⟩
    · rw [List.append_assoc, ← hafter, ← hname, List.takeWhile_append_dropWhile]
    · rw [← hname]
      exact isName_takeWhile hword hdigit rest
    · rw [← hfound, call?_append before offset name (by simp) (isSeam_paren _ y)]
  · simp at h

private theorem callHere_append {before : List Char} {offset : Nat} {quotes : Quotes} {c : Char}
    {x y : List Char} (hseam : isSeam (c :: x) y = true) :
    callHere before offset quotes c (x ++ y) = callHere before offset quotes c x := by
  have hhere := here_append before offset (List.cons_ne_nil c x) hseam
  rw [List.cons_append] at hhere
  rw [callHere, callHere, hhere]

private theorem callsFrom_eq_append_cons {before : List Char} {offset : Nat} {quotes : Quotes}
    {text : List Char} {front back : List Site} {site : Site}
    (h : callsFrom before offset quotes text = front ++ site :: back) :
    ∃ x name gap y, text = x ++ (name ++ (gap ++ ['(']) ++ y) ∧ isName name = true ∧
      (∀ d ∈ gap, isBlank d = true) ∧ (x.reverse ++ before).head?.any isWordChar = false ∧
      (quotes.passing before x).closed = true ∧
      call? (x.reverse ++ before) (offset + width x) name (gap ++ ['(']) = some site ∧
      front = callsFrom before offset quotes x := by
  induction text generalizing before offset quotes front with
  | nil => simp [callsFrom, scanFrom] at h
  | cons c text ih =>
      rw [callsFrom_cons] at h
      have hcases : (∃ later, callHere before offset quotes c text = front ++ site :: later) ∨
          ∃ later, front = callHere before offset quotes c text ++ later ∧
            callsFrom (c :: before) (offset + c.utf8Size) (quotes.step before.head? c) text =
              later ++ site :: back := by
        rcases List.append_eq_append_iff.mp h with ⟨later, hfront, hrest⟩ | ⟨later, hhere, hrest⟩
        · exact Or.inr ⟨later, hfront, hrest⟩
        · cases later with
          | nil => exact Or.inr ⟨[], by simpa using hhere.symm, by simpa using hrest.symm⟩
          | cons first later =>
              obtain ⟨rfl, -⟩ := List.cons.inj hrest
              exact Or.inl ⟨later, hhere⟩
      rcases hcases with ⟨later, hhere⟩ | ⟨later, rfl, hrest⟩
      · obtain ⟨rfl, -, hbegins, hclosed, name, gap, y, htext, hname, hgap, hcall⟩ :=
          callHere_eq_append_cons hhere
        have hword : before.head?.any isWordChar = false := by
          simp only [beginsName, Bool.and_eq_true, Bool.not_eq_true'] at hbegins
          exact hbegins.2
        exact ⟨[], name, gap, y, htext, hname, hgap, hword, hclosed, hcall, rfl⟩
      · obtain ⟨x, name, gap, y, rfl, hname, hgap, hword, hclosed, hcall, rfl⟩ := ih hrest
        refine ⟨c :: x, name, gap, y, rfl, hname, hgap, ?_, hclosed, ?_, ?_⟩
        · simpa using hword
        · simpa [Nat.add_assoc] using hcall
        · have hlast : (c :: x).getLast?.any isWordChar = false := by
            rw [List.head?_append, List.head?_reverse] at hword
            rw [List.getLast?_cons]
            cases hx : x.getLast? <;> simpa [hx] using hword
          rw [callsFrom_cons, List.append_assoc,
            callHere_append (Call.isSeam_name _ hname hlast)]

theorem exists_dot_of_followsDot {x : List Char} (h : followsDot x.reverse = true) :
    ∃ rest blanks, x = rest ++ '.' :: blanks ∧ (∀ c ∈ blanks, isBlank c = true) ∧
      rest.reverse.head? ≠ some '.' := by
  obtain ⟨rest, hdrop, hne⟩ := (followsDot_iff _).mp h
  refine ⟨rest.reverse, (x.reverse.takeWhile isBlank).reverse, ?_, ?_, by simpa using hne⟩
  · have hsplit := List.takeWhile_append_dropWhile (p := isBlank) (l := x.reverse)
    rw [show x.reverse.dropWhile isBlank = '.' :: rest from hdrop] at hsplit
    have hreversed := congrArg List.reverse hsplit
    simpa using hreversed.symm
  · intro c hc
    exact List.all_eq_true.mp List.all_takeWhile c (List.mem_reverse.mp hc)

/-- Every call that the scan reports stands in the text, outside of literals, and the calls
reported before it are those of the text before it. -/
theorem exists_call_of_calls {text : List Char} {front back : List Site} {site : Site}
    (h : callsFrom [] 0 {} text = front ++ site :: back) :
    ∃ (x : List Char) (call : Call) (y : List Char), text = x ++ call.chars ++ y ∧
      call.StandsAfter x.reverse ∧ (Quotes.passing {} [] x).closed = true ∧
      site = call.site (width x) ∧ front = callsFrom [] 0 {} x := by
  obtain ⟨x, name, gap, y, rfl, hname, hgap, hword, hclosed, hcall, rfl⟩ :=
    callsFrom_eq_append_cons h
  simp only [List.append_nil, Nat.zero_add] at hword hcall
  cases hdot : followsDot x.reverse with
  | false =>
      let call : Call := ⟨none, name, gap, by simp, hname, hgap⟩
      have hstands : call.StandsAfter x.reverse := ⟨hword, hdot⟩
      have hsite : some site = some (call.site (width x)) := by
        rw [← hcall, ← call.call?_eq_site hstands]
        rfl
      exact ⟨x, call, y, by simp [call, Call.chars, Call.lead], hstands, hclosed,
        Option.some.inj hsite, rfl⟩
  | true =>
      obtain ⟨rest, blanks, rfl, hblank, hne⟩ := exists_dot_of_followsDot hdot
      let call : Call := ⟨some blanks, name, gap, hblank, hname, hgap⟩
      have hlead : '.' :: blanks = call.lead := rfl
      have hstands : call.StandsAfter rest.reverse := hne
      have hsite : some site = some (call.site (width rest)) := by
        rw [← hcall, ← call.call?_eq_site hstands]
        simp [call, Call.lead]
      refine ⟨rest, call, y, ?_, hstands, ?_, Option.some.inj hsite, ?_⟩
      · simp [Call.chars, Call.lead, call]
      · rw [hlead, Quotes.passing_append,
          Quotes.passing_of_isPlain _ _ call.isPlain_of_mem_lead] at hclosed
        exact hclosed
      · rw [callsFrom, scanFrom_append [] 0 {} (isSeam_dot rest blanks), hlead,
          scanFrom_of_not_word _ _ _ call.not_isWordChar_lead, List.append_nil]
        rfl

end Site

end Respell
