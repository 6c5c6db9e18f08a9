import Respell.Toml.Moment
import Respell.Toml.Number

/-! # TOML documents -/

namespace Respell.Toml

def isKeyChar (c : Char) : Bool := c.isAlphanum || c == '_' || c == '-'

def keyPart : Reader String := do
  match ← Reader.peek? with
  | some '\x22' => lineString '\x22' true
  | some '\x27' => lineString '\x27' false
  | _ =>
      let first ← Reader.one isKeyChar
      return String.ofList (first :: (← Reader.run isKeyChar))

/-- The parts of a key between dots, `limit` of them at most. -/
def keyParts : (limit : Nat) → Reader (List String)
  | 0 => failure
  | limit + 1 => do
      spaces
      let part ← keyPart
      spaces
      if ← Reader.accept '.' then return part :: (← keyParts limit)
      else return [part]

/-- A key is split into the path to a table and a name in that table. -/
structure Key where
  path : List String
  name : String
  deriving Repr, DecidableEq

def key : Reader Key := do
  let parts ← keyParts 79
  return ⟨parts.dropLast, parts.getLast?.getD ""⟩

def scalar : Reader Value := do
  match ← Reader.peek? with
  | some '\x22' | some '\x27' => return .string (← string)
  | some 't' => Reader.text "true"; return .boolean true
  | some 'f' => Reader.text "false"; return .boolean false
  | _ => (do return .moment (← momentText)) <|> number

/-- The items of an array after its opening bracket, at most `fuel` of them. -/
def items (item : Reader Value) : (fuel : Nat) → Reader (List Value)
  | 0 => failure
  | fuel + 1 => do
      filler
      if ← Reader.accept ']' then return []
      let value ← item
      filler
      if ← Reader.accept ',' then return value :: (← items item fuel)
      Reader.char ']'
      return [value]

def array (item : Reader Value) : Reader Value := do
  Reader.char '['
  return .array (← items item ((← get).length + 1))

/-- A key, an equals sign and a value. -/
def pair (item : Reader Value) : Reader (Key × Value) := do
  let key ← key
  Reader.char '='
  spaces
  let value ← item
  return (key, value)

/-- The pairs of an inline table up to its closing brace, at most `fuel` of them. -/
def pairs (item : Reader Value) : (fuel : Nat) → Reader (List (Key × Value))
  | 0 => failure
  | fuel + 1 => do
      let first ← pair item
      spaces
      if ← Reader.accept ',' then return first :: (← pairs item fuel)
      Reader.char '\x7d'
      return [first]

def addPairs (pairs : List (Key × Value)) : Option Entries :=
  pairs.foldlM (fun entries (key, value) => Entries.addPair entries key.path key.name value) []

def inlineTable (item : Reader Value) : Reader Value := do
  Reader.char '\x7b'
  spaces
  let pairs ← do
    if ← Reader.accept '\x7d' then pure []
    else pairs item ((← get).length + 1)
  return .table .inline (← addPairs pairs)

/-- A value in which arrays and inline tables nest at most `depth` times. -/
def value : (depth : Nat) → Reader Value
  | 0 => scalar
  | depth + 1 => do
      match ← Reader.peek? with
      | some '[' => array (value depth)
      | some '\x7b' => inlineTable (value depth)
      | _ => scalar

/-- A line of a document that says something. -/
inductive Statement where
  | assign (key : Key) (value : Value)
  | openTable (key : Key)
  | openElement (key : Key)

def header : Reader Statement := do
  Reader.char '['
  if ← Reader.accept '[' then
    let key ← key
    Reader.text "]]"
    return .openElement key
  else
    let key ← key
    Reader.char ']'
    return .openTable key

def assignment : Reader Statement := do
  let (key, value) ← pair (value 79)
  return .assign key value

/-- The statements of a document, each on a line of its own, in at most `fuel` lines. -/
def statements : (fuel : Nat) → Reader (List Statement)
  | 0 => failure
  | fuel + 1 => do
      spaces
      match ← Reader.peek? with
      | none => return []
      | some '#' | some '\n' | some '\r' =>
          lineEnd
          statements fuel
      | some c =>
          let statement ← if c = '[' then header else assignment
          lineEnd
          return statement :: (← statements fuel)

/-- A document while it is being read: its contents so far, and the path of the table that values
are being assigned in. -/
structure Progress where
  entries : Entries := []
  path : List String := []

def Progress.step (progress : Progress) : Statement → Option Progress
  | .assign key value => do
      let entries ← Entries.alter false
        (fun _ inner => Entries.addPair inner key.path key.name value)
        progress.path .headed progress.entries
      return { progress with entries }
  | .openTable key => do
      let entries ← Entries.addTable progress.entries key.path key.name
      return ⟨entries, key.path ++ [key.name]⟩
  | .openElement key => do
      let entries ← Entries.addElement progress.entries key.path key.name
      return ⟨entries, key.path ++ [key.name]⟩

/-- The contents of a document; a byte order mark in front is passed over. -/
def parse? (text : String) : Option Entries := do
  let cs := match text.toList with
    | '\ufeff' :: cs => cs
    | cs => cs
  let (statements, _) ← statements (cs.length + 1) cs
  let progress ← statements.foldlM Progress.step {}
  return progress.entries

end Respell.Toml
