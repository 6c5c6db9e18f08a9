import Respell.Text.Blank
import Respell.Text.Offset

/-!
# Roles of names

Text before a place is read backwards.
-/

namespace Respell

inductive Role where
  | method
  | function
  | keyword
  | general
  deriving Repr, DecidableEq

namespace Role

def name : Role → String
  | method => "method"
  | function => "function"
  | keyword => "keyword"
  | general => "general"

def ofName? : String → Option Role
  | "method" => some method
  | "function" => some function
  | "keyword" => some keyword
  | "general" => some general
  | _ => none

end Role

/-- The characters of names: ASCII letters, digits and the underscore. -/
def isWordChar (c : Char) : Bool := c.isAlphanum || c == '_'

/-- A single dot comes last before a place, blanks apart. -/
def followsDot (before : List Char) : Bool :=
  match Text.dropBlanks before with
  | '.' :: '.' :: _ => false
  | '.' :: _ => true
  | _ => false

/-- A statement begins at the start of the text and after a brace or a semicolon. -/
def opensStatement (before : List Char) : Bool :=
  match Text.dropBlanks before with
  | [] => true
  | c :: _ => c == '\x7b' || c == '\x7d' || c == ';'

/-- An opening parenthesis comes next, blanks apart. -/
def meetsParen (after : List Char) : Bool := (Text.dropBlanks after).head? == some '('

namespace Role

/-- The role of the name at the head of `rest`. -/
def between (before rest : List Char) : Role :=
  if followsDot before then method
  else if meetsParen (rest.dropWhile isWordChar) then function
  else if opensStatement before then keyword
  else general

/-- The role of the name at a byte offset of a text. An offset that is not between characters of
the text tells nothing. -/
def atOffset (text : String) (offset : Nat) : Role :=
  match Text.splitAt? text.toList offset with
  | some (before, rest) => between before.reverse rest
  | none => general

end Role

end Respell
