import Respell.Toml.Reader

namespace Respell.Toml

/-- What the next `length` characters of the document stand for. -/
inductive Piece where
  | inside (text : List Char) (length : Nat)
  /-- The end of the string, with the text before the closing quotes. -/
  | closing (text : List Char) (length : Nat)
  deriving Repr, DecidableEq

/-- Reads pieces up to the closing one; the first `skip` characters belong to a piece already
read. -/
def readPieces (piece : List Char → Option Piece) :
    Nat → List Char → Option (List Char × List Char)
  | _, [] => none
  | skip + 1, _ :: cs => readPieces piece skip cs
  | 0, c :: cs =>
      match piece (c :: cs) with
      | none => none
      | some (.closing text length) => some (text, (c :: cs).drop length)
      | some (.inside text length) =>
          (readPieces piece (length - 1) cs).map fun (more, rest) => (text ++ more, rest)

def hexValue (c : Char) : Nat :=
  if c.isDigit then c.toNat - '0'.toNat else c.toLower.toNat - 'a'.toNat + 10

def isHexDigit (c : Char) : Bool :=
  c.isDigit || ('a' ≤ c && c ≤ 'f') || ('A' ≤ c && c ≤ 'F')

/-- The character with a code of exactly `count` hexadecimal digits. -/
def hexEscape? (count : Nat) (cs : List Char) : Option Char :=
  let digits := cs.take count
  let code := digits.foldl (fun code digit => 16 * code + hexValue digit) 0
  if digits.length = count ∧ digits.all isHexDigit ∧ code.isValidChar then some (Char.ofNat code)
  else none

/-- The escape sequence after a backslash. -/
def escape? : List Char → Option Piece
  | 'b' :: _ => some (.inside ['\x08'] 2)
  | 't' :: _ => some (.inside ['\t'] 2)
  | 'n' :: _ => some (.inside ['\n'] 2)
  | 'f' :: _ => some (.inside ['\x0c'] 2)
  | 'r' :: _ => some (.inside ['\r'] 2)
  | '\x22' :: _ => some (.inside ['\x22'] 2)
  | '\x5c' :: _ => some (.inside ['\x5c'] 2)
  | 'u' :: cs => (hexEscape? 4 cs).map fun c => .inside [c] 6
  | 'U' :: cs => (hexEscape? 8 cs).map fun c => .inside [c] 10
  | _ => none

/-- The piece in front of a string on one line. -/
def linePiece (quote : Char) (escapes : Bool) : List Char → Option Piece
  | [] => none
  | c :: cs =>
      if c = quote then some (.closing [] 1)
      else if escapes ∧ c = '\x5c' then escape? cs
      else if isPlain c then some (.inside [c] 1)
      else none

/-- The number of characters of the line end that comes next, or 0. -/
def newlineLength : List Char → Nat
  | '\n' :: _ => 1
  | '\r' :: '\n' :: _ => 2
  | _ => 0

/-- The number of blanks and line ends that come next; the first `skip` characters were counted
already. -/
def breakLength : Nat → List Char → Nat
  | _, [] => 0
  | skip + 1, _ :: cs => 1 + breakLength skip cs
  | 0, c :: cs =>
      if isSpace c then 1 + breakLength 0 cs
      else match newlineLength (c :: cs) with
        | 0 => 0
        | length + 1 => 1 + breakLength length cs

/-- A backslash at the end of a line joins it to the next text, whatever blanks are between. -/
def joiner? (cs : List Char) : Option Piece :=
  if newlineLength (cs.dropWhile isSpace) = 0 then none
  else some (.inside [] (1 + breakLength 0 cs))

/-- The piece in front of a string on several lines. Three quotes close it, and up to two more
before them belong to the text. -/
def blockPiece (quote : Char) (escapes : Bool) : List Char → Option Piece
  | [] => none
  | c :: cs =>
      if c = quote then
        let count := ((c :: cs).takeWhile (· == quote)).length
        if count < 3 then some (.inside (List.replicate count quote) count)
        else
          let extra := min (count - 3) 2
          some (.closing (List.replicate extra quote) (extra + 3))
      else if escapes ∧ c = '\x5c' then (joiner? cs).or (escape? cs)
      else if isPlain c then some (.inside [c] 1)
      else match newlineLength (c :: cs) with
        | 0 => none
        | length => some (.inside ['\n'] length)

def lineString (quote : Char) (escapes : Bool) : Reader String := do
  Reader.char quote
  let text ← (readPieces (linePiece quote escapes) 0 : Reader (List Char))
  return String.ofList text

/-- A line end right after the opening quotes does not belong to the text. -/
def blockString (quote : Char) (escapes : Bool) : Reader String := do
  Reader.text (String.ofList [quote, quote, quote])
  modify fun cs => cs.drop (newlineLength cs)
  let text ← (readPieces (blockPiece quote escapes) 0 : Reader (List Char))
  return String.ofList text

/-- A string of any kind; double quotes allow escapes. -/
def string : Reader String := do
  let cs ← get
  let quote := cs.head?.getD '\x22'
  let escapes := quote == '\x22'
  if [quote, quote, quote].isPrefixOf cs then blockString quote escapes
  else lineString quote escapes

end Respell.Toml
