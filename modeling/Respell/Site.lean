import Respell.Role

/-!
# Sites

The scan passes over a text once and keeps what lies behind it in reverse.
-/

namespace Respell

/-- A name in a text, with the stretch of text that makes it a call or a keyword. -/
structure Site where
  word : String
  role : Role
  offset : Nat
  span : Text.Span
  matched : String
  deriving Repr, DecidableEq

/-- Which quotes are open. The two kinds are counted apart from each other. -/
structure Quotes where
  double : Bool := false
  single : Bool := false
  deriving Repr, DecidableEq

namespace Quotes

def closed (quotes : Quotes) : Bool := !quotes.double && !quotes.single

/-- A quote opens or closes a literal, unless a backslash stands right before it. -/
def step (quotes : Quotes) (previous : Option Char) (c : Char) : Quotes :=
  if previous = some '\x5c' then quotes
  else if c = '\x22' then { quotes with double := !quotes.double }
  else if c = '\x27' then { quotes with single := !quotes.single }
  else quotes

end Quotes

namespace Site

/-- The words that are looked for where a statement begins. -/
def statementWords : List String :=
  ["agar", "nahi_to", "ya_phir", "jabtak", "liye", "karya", "class", "vapas", "try", "throw"]

def keyword? (before : List Char) (offset : Nat) (word : List Char) : Option Site :=
  if statementWords.contains (String.ofList word) && opensStatement before then
    some ⟨String.ofList word, .keyword, offset, ⟨offset, offset + Text.width word⟩,
      String.ofList word⟩
  else none

/-- A call extends to the parenthesis, and from the dot on if it is a call of a method. -/
def call? (before : List Char) (offset : Nat) (word after : List Char) : Option Site :=
  if meetsParen after then
    let tail := word ++ after.takeWhile Text.isBlank ++ ['(']
    let stop := offset + Text.width tail
    if followsDot before then
      let lead := '.' :: (before.takeWhile Text.isBlank).reverse
      some ⟨String.ofList word, .method, offset, ⟨offset - Text.width lead, stop⟩,
        String.ofList (lead ++ tail)⟩
    else
      some ⟨String.ofList word, .function, offset, ⟨offset, stop⟩, String.ofList tail⟩
  else none

/-- The sites of the name at the head of `rest`; a keyword may be called as well. -/
def here (before : List Char) (offset : Nat) (rest : List Char) : List Site :=
  let word := rest.takeWhile isWordChar
  let after := rest.dropWhile isWordChar
  (keyword? before offset word).toList ++ (call? before offset word after).toList

/-- A name begins at a word character that is no digit and continues no other. -/
def beginsName (before : List Char) (c : Char) : Bool :=
  isWordChar c && !c.isDigit && !before.head?.any isWordChar

/-- The sites of a text that continues `before`, at byte `offset`. -/
def scanFrom (before : List Char) (offset : Nat) (quotes : Quotes) : List Char → List Site
  | [] => []
  | c :: rest =>
      (if beginsName before c && quotes.closed then here before offset (c :: rest) else []) ++
        scanFrom (c :: before) (offset + c.utf8Size) (quotes.step before.head? c) rest

/-- The sites of a text in the order of their names. -/
def scan (text : String) : List Site := scanFrom [] 0 {} text.toList

end Site

end Respell
