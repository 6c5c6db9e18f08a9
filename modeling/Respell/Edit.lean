import Respell.Lexicon.Basic
import Respell.Site

/-!
# Edits

Edits are tried from the last site of a text to the first. One that overlaps an edit already
chosen, or that no longer fits the text, is left out.
-/

namespace Respell

/-- A site with the word to write there. -/
structure Edit where
  site : Site
  suggestion : String
  deriving Repr, DecidableEq

/-- A word that was replaced by another, as told to the user. -/
structure Change where
  word : String
  suggestion : String
  role : Role
  deriving Repr, DecidableEq

/-- A text after correction, with the changes that were made. -/
structure Revision where
  text : String
  changes : List Change := []
  deriving Repr, DecidableEq

def Revision.isChanged (revision : Revision) : Bool := !revision.changes.isEmpty

namespace Edit

/-- A name followed by an opening parenthesis and nothing else, blanks between them apart. -/
def isCallOf (name cs : List Char) : Bool :=
  name.isPrefixOf cs && Text.dropBlanks (cs.drop name.length) == ['(']

/-- A call after any number of blanks, which may also belong to the name. -/
def isSpacedCallOf (name : List Char) : List Char → Bool
  | [] => false
  | c :: cs => isCallOf name (c :: cs) || (Text.isBlank c && isSpacedCallOf name cs)

/-- The form of a call: for a method, a dot comes before the name. -/
def isCallText (role : Role) (name cs : List Char) : Bool :=
  match role with
  | .method => cs.head? == some '.' && isSpacedCallOf name cs.tail
  | _ => isCallOf name cs

/-- The span holds the recorded text, which is a call of the word, and no other name ends where the
span starts. -/
def fits (text : List Char) (edit : Edit) : Bool :=
  match Text.parts? text edit.site.span with
  | none => false
  | some (before, inside, _) =>
      inside == edit.site.matched.toList &&
        (edit.site.role == .method || !before.getLast?.any isWordChar) &&
        isCallText edit.site.role edit.site.word.toList inside

/-- What is written in place of the span. -/
def replacement (edit : Edit) : List Char :=
  match edit.site.role with
  | .method => '.' :: edit.suggestion.toList ++ ['(']
  | _ => edit.suggestion.toList ++ ['(']

/-- An edit with its place in the list that it came in. -/
abbrev Numbered := Edit × Nat

/-- Edits from the last start to the first; of those with one start, the last in the list first. -/
def lastFirst (edits : List Numbered) : List Numbered :=
  edits.reverse.mergeSort fun x y => y.1.site.span.start ≤ x.1.site.span.start

/-- The edits that fit and end where the one chosen before starts, or earlier. -/
def choose (text : List Char) : Nat → List Numbered → List Numbered
  | _, [] => []
  | floor, edit :: edits =>
      if edit.1.site.span.stop ≤ floor ∧ edit.1.fits text then
        edit :: choose text edit.1.site.span.start edits
      else choose text floor edits

/-- The edits to be made in a text, the last one first. Exempt words are not replaced. -/
def chosen (lexicon : Lexicon) (text : List Char) (edits : List Edit) : List Numbered :=
  choose text (Text.width text)
    (lastFirst (edits.zipIdx.filter fun edit => !lexicon.exempts edit.1.site.word))

/-- Makes one edit in a text. -/
def splice? (text : List Char) (edit : Edit) : Option (List Char) :=
  Text.replace? text edit.site.span edit.replacement

/-- Makes edits one after the other. Each one is placed by the offsets of the first text, so they
have to come from its end to its start. -/
def spliceAll? (text : List Char) (edits : List Numbered) : Option (List Char) :=
  edits.foldlM (fun text edit => splice? text edit.1) text

def change (edit : Edit) : Change := ⟨edit.site.word, edit.suggestion, edit.site.role⟩

/-- Keeps the first change of each word to each suggestion. -/
def firstOfEach : List Change → List Change
  | [] => []
  | change :: changes =>
      change :: (firstOfEach changes).filter fun other =>
        (other.word, other.suggestion) ≠ (change.word, change.suggestion)

/-- Makes the chosen edits and reports them in the order of the list. -/
def applyAll (lexicon : Lexicon) (text : String) (edits : List Edit) : Revision :=
  let made := chosen lexicon text.toList edits
  { text := ((spliceAll? text.toList made).map String.ofList).getD text
    changes := firstOfEach
      ((edits.zipIdx.filter fun edit => made.contains edit).map fun edit => edit.1.change) }

end Edit

end Respell
