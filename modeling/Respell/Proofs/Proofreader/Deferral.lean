import Mathlib.Data.List.TakeWhile
import Respell.Proofreader
import Respell.Proofs.Text.Cut

namespace Respell

open Text

namespace Text

theorem exists_dropBlanks_eq (text : List Char) :
    ∃ blanks, dropBlanks text = trim text ++ blanks ∧ ∀ c ∈ blanks, isBlank c = true := by
  refine ⟨((dropBlanks text).reverse.takeWhile isBlank).reverse, ?_, ?_⟩
  · rw [trim, ← List.reverse_append, dropBlanks, dropBlanks, List.takeWhile_append_dropWhile,
      List.reverse_reverse]
  · intro c hc
    exact List.all_eq_true.mp List.all_takeWhile c (List.mem_reverse.mp hc)

theorem head?_trim (text : List Char) : (trim text).head? = (dropBlanks text).head? := by
  obtain ⟨blanks, htext, hblanks⟩ := exists_dropBlanks_eq text
  cases htrim : trim text with
  | cons c rest => simp [htext, htrim]
  | nil =>
      -- then nothing but blanks is left, and a text does not begin with one once they are dropped
      rw [htrim, List.nil_append] at htext
      have hfirst := List.head?_dropWhile_not isBlank text
      rw [← dropBlanks, htext] at hfirst
      cases blanks with
      | nil => rw [htext]
      | cons c blanks => simp [hblanks c] at hfirst

end Text

namespace Proofreader

/-- A blank or an opening parenthesis, which the first word of a text does not go beyond. -/
def endsWord (c : Char) : Bool := isBlank c || c == '('

def firstPart (text : List Char) : List Char := text.takeWhile (!endsWord ·)

theorem firstPart_eq_iff {text word : List Char} :
    firstPart text = word ↔
      ∃ tail, text = word ++ tail ∧ (∀ c ∈ word, endsWord c = false) ∧
        ∀ c, tail.head? = some c → endsWord c = true := by
  constructor
  · rintro rfl
    refine ⟨text.dropWhile (!endsWord ·), List.takeWhile_append_dropWhile.symm, ?_, ?_⟩
    · intro c hc
      simpa using List.all_eq_true.mp List.all_takeWhile c hc
    · intro c hc
      have hfirst := List.head?_dropWhile_not (!endsWord ·) text
      rw [hc] at hfirst
      simpa using hfirst
  · rintro ⟨tail, rfl, hword, htail⟩
    rw [firstPart, List.takeWhile_append_of_pos fun c hc => by simp [hword c hc]]
    cases tail with
    | nil => simp
    | cons c tail => simp [htail c rfl]

/-- In a text that does not begin with a blank, the cut at the first parenthesis and the cut at
the first blank are one. -/
theorem firstWord_eq_firstPart {text : List Char}
    (h : ∀ c, text.head? = some c → isBlank c = false) : firstWord text = firstPart text := by
  have hhead : dropBlanks (text.takeWhile (· != '(')) = text.takeWhile (· != '(') := by
    cases text with
    | nil => rfl
    | cons c text =>
        rw [List.takeWhile_cons]
        split
        · rw [dropBlanks, List.dropWhile_cons_of_neg (by simp [h c rfl])]
        · rfl
  simp only [firstWord, hhead, List.takeWhile_takeWhile, firstPart]
  apply congrArg (text.takeWhile ·)
  funext c
  rw [Bool.eq_iff_iff]
  simp [endsWord]

theorem firstPart_trim (text : List Char) : firstPart (trim text) = firstPart (dropBlanks text) := by
  obtain ⟨blanks, htext, hblanks⟩ := exists_dropBlanks_eq text
  have hnone : blanks.takeWhile (!endsWord ·) = [] := by
    cases blanks with
    | nil => rfl
    | cons c blanks => simp [endsWord, hblanks c]
  rw [htext, firstPart, firstPart, List.takeWhile_append, hnone, List.append_nil]
  split
  · rename_i hall
    exact (List.takeWhile_prefix _).eq_of_length hall
  · rfl

theorem firstWord_trim (text : List Char) :
    firstWord (trim text) = firstPart (dropBlanks text) := by
  rw [firstWord_eq_firstPart, firstPart_trim]
  intro c hc
  have hfirst := List.head?_dropWhile_not isBlank text
  rw [← dropBlanks, ← head?_trim, hc] at hfirst
  simpa using hfirst

/-- How a text addresses the console, blanks in front of it apart. -/
inductive AddressesConsole (proofreader : Proofreader) (text : List Char) : Prop
  | marker (c : Char) (rest : List Char) (begins : dropBlanks text = c :: rest)
      (marks : c ∈ proofreader.settings.metaMarkers)
  | command (name : String) (tail : List Char) (begins : dropBlanks text = name.toList ++ tail)
      (reserved : name ∈ proofreader.lexicon.reserved) (nonempty : name ≠ "")
      (whole : ∀ c ∈ name.toList, endsWord c = false)
      (ends : ∀ c, tail.head? = some c → endsWord c = true)

theorem defers_iff (proofreader : Proofreader) (text : String) :
    proofreader.defers text = true ↔ proofreader.AddressesConsole text.toList := by
  have hmarker : proofreader.settings.isMeta (trim text.toList) = true ↔
      ∃ c rest, dropBlanks text.toList = c :: rest ∧ c ∈ proofreader.settings.metaMarkers := by
    rw [Settings.isMeta, head?_trim]
    cases dropBlanks text.toList <;> simp
  rw [defers, firstWord_trim, Bool.or_eq_true, Bool.and_eq_true, hmarker, Lexicon.isReserved,
    List.contains_iff_mem, bne_iff_ne]
  constructor
  · rintro (⟨c, rest, hbegins, hmarks⟩ | ⟨hnonempty, hreserved⟩)
    · exact .marker c rest hbegins hmarks
    · obtain ⟨tail, hbegins, hwhole, hends⟩ :=
        firstPart_eq_iff.mp (rfl : firstPart (dropBlanks text.toList) = _)
      refine .command _ tail ?_ hreserved ?_ ?_ hends
      · rwa [String.toList_ofList]
      · intro hempty
        apply hnonempty
        simpa using congrArg String.toList hempty
      · rwa [String.toList_ofList]
  · intro h
    cases h with
    | marker c rest begins marks => exact Or.inl ⟨c, rest, begins, marks⟩
    | command name tail begins reserved nonempty whole ends =>
        have hword : firstPart (dropBlanks text.toList) = name.toList :=
          firstPart_eq_iff.mpr ⟨tail, begins, whole, ends⟩
        right
        rw [hword, String.ofList_toList]
        refine ⟨?_, reserved⟩
        intro hempty
        exact nonempty (String.toList_inj.mp hempty)

theorem addressesConsole_append {proofreader : Proofreader} {blanks tail : List Char}
    {name : String} (hblanks : ∀ c ∈ blanks, isBlank c = true)
    (reserved : name ∈ proofreader.lexicon.reserved) (nonempty : name ≠ "")
    (whole : ∀ c ∈ name.toList, endsWord c = false)
    (ends : ∀ c, tail.head? = some c → endsWord c = true) :
    proofreader.AddressesConsole (blanks ++ name.toList ++ tail) := by
  refine .command name tail ?_ reserved nonempty whole ends
  cases hname : name.toList with
  | nil => exact absurd (String.toList_inj.mp hname) nonempty
  | cons c rest =>
      have hc : isBlank c = false := by
        have hword := whole c (by simp [hname])
        simp only [endsWord, Bool.or_eq_false_iff] at hword
        exact hword.1
      rw [List.append_assoc, List.cons_append, dropBlanks, dropWhile_run _ hblanks hc]

/-- A text that begins with a marker, or with a reserved name and then a blank, a parenthesis or
nothing, is given back as it is and nothing is looked up. Any other text is scanned, and edited at
its sites. So what follows a reserved name is never touched. -/
theorem revise_console (proofreader : Proofreader) (text : String) :
    (proofreader.AddressesConsole text.toList →
      proofreader.revise text = ({ text, changes := [] }, proofreader)) ∧
    (¬ proofreader.AddressesConsole text.toList →
      proofreader.revise text =
        (Edit.applyAll (proofreader.editsFor (Site.scan text)).2.lexicon text
            (proofreader.editsFor (Site.scan text)).1,
          (proofreader.editsFor (Site.scan text)).2)) ∧
    ∀ (blanks tail : List Char) (name : String), (∀ c ∈ blanks, isBlank c = true) →
      name ∈ proofreader.lexicon.reserved → name ≠ "" →
      (∀ c ∈ name.toList, endsWord c = false) →
      (∀ c, tail.head? = some c → endsWord c = true) →
      text.toList = blanks ++ name.toList ++ tail →
      proofreader.revise text = ({ text, changes := [] }, proofreader) := by
  have hdefers : proofreader.AddressesConsole text.toList →
      proofreader.revise text = ({ text, changes := [] }, proofreader) := by
    intro h
    rw [revise, if_pos ((defers_iff proofreader text).mpr h)]
  refine ⟨hdefers, ?_, ?_⟩
  · intro h
    rw [revise, if_neg (mt (defers_iff proofreader text).mp h)]
  · intro blanks tail name hblanks reserved nonempty whole ends htext
    apply hdefers
    rw [htext]
    exact addressesConsole_append hblanks reserved nonempty whole ends

end Proofreader

end Respell
