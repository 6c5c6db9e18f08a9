/-!
# Byte offsets

Texts are lists of characters, while places in them are counted in bytes of their UTF-8 form.
-/

namespace Respell.Text

/-- The length of a text in bytes. -/
def width : List Char → Nat
  | [] => 0
  | c :: cs => c.utf8Size + width cs

/-- A stretch of text between two byte offsets, the second one excluded. -/
structure Span where
  start : Nat
  stop : Nat
  deriving Repr, DecidableEq

/-- Cuts a text at a byte offset, provided that a character begins or the text ends there. -/
def splitAt? : List Char → Nat → Option (List Char × List Char)
  | cs, 0 => some ([], cs)
  | [], _ + 1 => none
  | c :: cs, offset + 1 =>
      if offset + 1 < c.utf8Size then none
      else (splitAt? cs (offset + 1 - c.utf8Size)).map fun parts => (c :: parts.1, parts.2)

/-- The three parts of a text before, within and after a span. -/
def parts? (cs : List Char) (span : Span) : Option (List Char × List Char × List Char) :=
  if span.start ≤ span.stop then do
    let (before, rest) ← splitAt? cs span.start
    let (inside, after) ← splitAt? rest (span.stop - span.start)
    return (before, inside, after)
  else none

/-- The text with a span of it replaced. -/
def replace? (cs : List Char) (span : Span) (new : List Char) : Option (List Char) :=
  (parts? cs span).map fun (before, _, after) => before ++ new ++ after

end Respell.Text
