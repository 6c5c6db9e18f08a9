namespace Respell.Toml

abbrev Reader := StateT (List Char) Option

namespace Reader

/-- The next character, which is left in place. -/
def peek? : Reader (Option Char) := do return (← get).head?

/-- Takes one character of a kind. -/
def one (p : Char → Bool) : Reader Char := do
  match ← get with
  | c :: rest => if p c then set rest; return c else failure
  | [] => failure

/-- Takes a given character. -/
def char (c : Char) : Reader Unit := do
  let _ ← one (· == c)

/-- Takes a given text. -/
def text (expected : String) : Reader Unit := do
  let cs ← get
  if expected.toList.isPrefixOf cs then set (cs.drop expected.toList.length) else failure

/-- Takes a given character if it comes next, and tells whether it did. -/
def accept (c : Char) : Reader Bool := do
  if (← peek?) == some c then
    char c
    return true
  else return false

/-- Takes all characters of a kind that come next. -/
def run (p : Char → Bool) : Reader (List Char) := do
  let cs ← get
  set (cs.dropWhile p)
  return cs.takeWhile p

/-- Takes `count` characters of a kind. -/
def exactly (p : Char → Bool) : Nat → Reader (List Char)
  | 0 => return []
  | count + 1 => do
      let c ← one p
      return c :: (← exactly p count)

def atEnd : Reader Bool := do return (← get).isEmpty

end Reader

def isSpace (c : Char) : Bool := c == ' ' || c == '\t'

/-- Characters that may stand in comments and strings: no control characters but the tab. -/
def isPlain (c : Char) : Bool := c == '\t' || (' ' ≤ c && c ≤ '~') || '\x80' ≤ c

def spaces : Reader Unit := do
  let _ ← Reader.run isSpace

def newline : Reader Unit := do
  let _ ← Reader.accept '\r'
  Reader.char '\n'

def comment : Reader Unit := do
  Reader.char '#'
  let _ ← Reader.run isPlain

/-- What may follow on a line after its contents. -/
def lineEnd : Reader Unit := do
  spaces
  if (← Reader.peek?) == some '#' then comment
  if ← Reader.atEnd then return
  newline

/-- Blanks, comments and line ends, as many as `fuel` lines of them. -/
def fillerLines : Nat → Reader Unit
  | 0 => spaces
  | fuel + 1 => do
      spaces
      match ← Reader.peek? with
      | some '#' => comment; newline; fillerLines fuel
      | some '\n' | some '\r' => newline; fillerLines fuel
      | _ => return

/-- Blanks, comments and line ends between the items of an array. -/
def filler : Reader Unit := do fillerLines (← get).length

end Respell.Toml
