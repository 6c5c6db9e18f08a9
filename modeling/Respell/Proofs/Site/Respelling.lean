import Respell.Edit
import Respell.Proofs.Site.Call

namespace Respell

open Text

namespace Quotes

/-- The string literals of a text that continues `before`, each with its quotes. The one that is
open, if any, has begun with `current`. -/
def literalsFrom (quotes : Quotes) (before current : List Char) : List Char → List (List Char)
  | [] => if current = [] then [] else [current]
  | c :: rest =>
      let next := quotes.step before.head? c
      if !next.closed then next.literalsFrom (c :: before) (current ++ [c]) rest
      else if quotes.closed then next.literalsFrom (c :: before) [] rest
      else (current ++ [c]) :: next.literalsFrom (c :: before) [] rest

/-- The string literals of a text. -/
def literals (text : String) : List (List Char) := literalsFrom {} [] [] text.toList

theorem literalsFrom_append {quotes : Quotes} {before current x : List Char}
    (hcurrent : quotes.closed = true → current = [])
    (hclosed : (quotes.passing before x).closed = true) (y : List Char) :
    quotes.literalsFrom before current (x ++ y) =
      quotes.literalsFrom before current x ++
        (quotes.passing before x).literalsFrom (x.reverse ++ before) [] y := by
  induction x generalizing quotes before current with
  | nil =>
      obtain rfl := hcurrent hclosed
      rfl
  | cons c x ih =>
      simp only [passing] at hclosed
      simp only [List.cons_append, literalsFrom, passing, List.reverse_cons, List.append_assoc,
        List.nil_append]
      cases hnext : (quotes.step before.head? c).closed with
      | false =>
          simp only [Bool.not_false, if_true]
          exact ih (by simp [hnext]) hclosed
      | true =>
          have hrest := @ih (quotes.step before.head? c) (c :: before) [] (fun _ => rfl) hclosed
          cases hquotes : quotes.closed with
          | false => simp [hrest]
          | true => simp [hrest]

theorem literalsFrom_of_isPlain {quotes : Quotes} (hclosed : quotes.closed = true)
    (before : List Char) {x : List Char} (hx : ∀ c ∈ x, isPlain c = true) :
    quotes.literalsFrom before [] x = [] := by
  induction x generalizing before with
  | nil => rfl
  | cons c x ih =>
      have hrest := ih (c :: before) fun d hd => hx d (by simp [hd])
      simp only [literalsFrom, step_of_isPlain quotes _ (hx c (by simp)), hclosed, hrest]
      rfl

theorem literalsFrom_looksLike {before before' : List Char}
    (h : Site.LooksLike before before') (quotes : Quotes) (current x : List Char) :
    quotes.literalsFrom before current x = quotes.literalsFrom before' current x := by
  induction x generalizing quotes before before' current with
  | nil => rfl
  | cons c x ih =>
      simp only [literalsFrom, h.step_eq quotes c]
      rw [ih (h.cons c), ih (h.cons c)]

end Quotes

namespace Call

/-- A call with another name and without blanks. -/
def respell (call : Call) {new : List Char} (hnew : isName new = true) : Call where
  blanks? := call.blanks?.map fun _ => []
  name := new
  gap := []
  blanks_blank := by cases call.blanks? <;> simp
  name_isName := hnew
  gap_blank := by simp

theorem role_respell (call : Call) {new : List Char} (hnew : isName new = true) :
    (call.respell hnew).role = call.role := by
  simp [role, respell]

theorem StandsAfter.respell {call : Call} {before : List Char} (h : call.StandsAfter before)
    {new : List Char} (hnew : isName new = true) : (call.respell hnew).StandsAfter before := by
  cases hblanks : call.blanks? with
  | none => simpa [StandsAfter, Call.respell, hblanks] using h
  | some blanks => simpa [StandsAfter, Call.respell, hblanks] using h

theorem replacement_eq_chars (call : Call) (start : Nat) {word : String}
    (hword : isName word.toList = true) :
    Edit.replacement ⟨call.site start, word⟩ = (call.respell hword).chars := by
  cases hblanks : call.blanks? with
  | none => simp [Edit.replacement, site, role, respell, chars, lead, hblanks]
  | some blanks => simp [Edit.replacement, site, role, respell, chars, lead, hblanks]

theorem literals_append_chars (call : Call) {x : List Char}
    (hclosed : (Quotes.passing {} [] x).closed = true) (y : List Char) :
    Quotes.literalsFrom {} [] [] (x ++ call.chars ++ y) =
      Quotes.literalsFrom {} [] [] x ++
        (Quotes.passing {} [] x).literalsFrom (call.chars.reverse ++ x.reverse) [] y := by
  have hplain := call.isPlain_of_mem_chars
  have hpassing : ((Quotes.passing {} [] x).passing x.reverse call.chars) =
      Quotes.passing {} [] x := Quotes.passing_of_isPlain _ _ hplain
  rw [List.append_assoc, Quotes.literalsFrom_append (fun _ => rfl) hclosed, List.append_nil,
    Quotes.literalsFrom_append (fun _ => rfl) (by rw [hpassing]; exact hclosed), hpassing,
    Quotes.literalsFrom_of_isPlain hclosed _ hplain, List.nil_append]

end Call

namespace Site

theorem splice?_call {text : List Char} {front back : List Site} {site : Site}
    (h : callsFrom [] 0 {} text = front ++ site :: back) {word : String}
    (hword : isName word.toList = true) :
    ∃ text' site' back', Edit.splice? text ⟨site, word⟩ = some text' ∧
      callsFrom [] 0 {} text' = front ++ site' :: back' ∧
      site'.outline = (site.role, word) ∧ back'.map outline = back.map outline ∧
      Quotes.literalsFrom {} [] [] text' = Quotes.literalsFrom {} [] [] text := by
  obtain ⟨x, call, y, rfl, hstands, hclosed, rfl, rfl⟩ := exists_call_of_calls h
  have hrespelt := hstands.respell hword
  have holdCalls := call.callsFrom_append_chars [] 0 {} (x := x) (by simpa using hstands)
    hclosed y
  have hnewCalls := (call.respell hword).callsFrom_append_chars [] 0 {} (x := x)
    (by simpa using hrespelt) hclosed y
  have hlooks : LooksLike ((call.respell hword).chars.reverse ++ x.reverse)
      (call.chars.reverse ++ x.reverse) := by
    obtain ⟨u, hu⟩ := call.chars_eq_append_paren
    obtain ⟨v, hv⟩ := (call.respell hword).chars_eq_append_paren
    rw [hu, hv, List.reverse_append, List.reverse_append]
    exact LooksLike.paren _ _
  simp only [Nat.zero_add, List.append_nil] at holdCalls hnewCalls
  have hback := List.cons.inj (List.append_cancel_left (h.symm.trans holdCalls))
  refine ⟨x ++ (call.respell hword).chars ++ y, _, _, ?_, hnewCalls, ?_, ?_, ?_⟩
  · rw [Edit.splice?, call.replacement_eq_chars _ hword]
    exact replace?_append x call.chars y _
  · have hname : String.ofList (call.respell hword).name = word := String.ofList_toList
    simp only [outline, Call.site, call.role_respell hword, hname]
  · rw [hback.2]
    exact outline_callsFrom hlooks _ _ _ y
  · rw [call.literals_append_chars hclosed, (call.respell hword).literals_append_chars hclosed,
      Quotes.literalsFrom_looksLike hlooks]

/-- Respelling calls from the last one to the first: each one has its new word, all calls keep
their roles and their order, and the literals of the text are the same. -/
theorem foldlM_splice?_calls {new? : Site → Option String}
    (hnew : ∀ site word, new? site = some word → isName word.toList = true)
    {text : List Char} {front back : List Site}
    (h : callsFrom [] 0 {} text = front ++ back) :
    ∃ text', (front.filterMap fun site => (new? site).map (Edit.mk site)).reverse.foldlM
        Edit.splice? text = some text' ∧
      (callsFrom [] 0 {} text').map outline =
        front.map (fun site => (site.role, (new? site).getD site.word)) ++ back.map outline ∧
      Quotes.literalsFrom {} [] [] text' = Quotes.literalsFrom {} [] [] text := by
  obtain ⟨sites, rfl⟩ : ∃ sites, front = sites.reverse := ⟨front.reverse, by simp⟩
  induction sites generalizing text back with
  | nil => exact ⟨text, rfl, by simpa using congrArg (List.map outline) h, rfl⟩
  | cons site sites ih =>
      rw [List.reverse_cons, List.append_assoc, List.singleton_append] at h
      cases hsite : new? site with
      | none =>
          obtain ⟨text', hsplice, hcalls, hliterals⟩ := ih h
          refine ⟨text', ?_, ?_, hliterals⟩
          · simpa [hsite] using hsplice
          · simpa [hsite, outline] using hcalls
      | some word =>
          obtain ⟨first, site', back', hfirst, hcallsFirst, hsite', hback', hliteralsFirst⟩ :=
            splice?_call h (hnew site word hsite)
          obtain ⟨text', hsplice, hcalls, hliterals⟩ := ih hcallsFirst
          refine ⟨text', ?_, ?_, hliterals.trans hliteralsFirst⟩
          · simp only [List.reverse_cons, List.filterMap_append, List.filterMap_cons, hsite,
              Option.map_some, List.filterMap_nil, List.reverse_append, List.reverse_nil,
              List.nil_append, List.singleton_append, List.foldlM_cons, hfirst]
            exact hsplice
          · rw [hcalls, List.map_cons, hsite', hback']
            simp [hsite]

end Site

end Respell
