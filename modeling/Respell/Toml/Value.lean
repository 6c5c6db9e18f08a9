/-!
# TOML values

Tables remember how they came about, because that decides in which ways the rest of the document
may still add to them.
-/

namespace Respell.Toml

/-- How a table was written. -/
inductive TableForm where
  /-- Between braces: nothing can be added. -/
  | inline
  /-- Under a header of its own. -/
  | headed
  /-- Only passed through by the headers of tables inside it. -/
  | passed
  /-- Only passed through by the dotted keys of values inside it. -/
  | dotted
  deriving Repr, DecidableEq

inductive Value where
  | string (text : String)
  | integer (number : Int)
  | float (number : Float)
  | boolean (truth : Bool)
  /-- A date, a time of day or both, as written. -/
  | moment (text : String)
  | array (items : List Value)
  | table (form : TableForm) (entries : List (String × Value))
  /-- An array of tables, each under a header of its own. -/
  | series (tables : List (List (String × Value)))
  deriving Inhabited

abbrev Entries := List (String × Value)

namespace Entries

/-- Gives a key a new value, in place if the key is there and else at the end. -/
def put (entries : Entries) (key : String) (value : Value) : Entries :=
  match entries with
  | [] => [(key, value)]
  | entry :: entries =>
      if entry.1 = key then (key, value) :: entries else entry :: put entries key value

/-- Changes the table that a path leads to, and makes the tables on the way where they are missing.
In an array of tables the way goes through the last one. A dotted path does not enter tables that
have a header. -/
def alter (asDotted : Bool) (change : TableForm → Entries → Option Entries) :
    List String → TableForm → Entries → Option Entries
  | [], form, entries => change form entries
  | key :: path, _, entries =>
      match entries.lookup key with
      | none =>
          let form : TableForm := if asDotted then .dotted else .passed
          (alter asDotted change path form []).map fun inner => entries.put key (.table form inner)
      | some (.table form inner) =>
          if form = .inline ∨ (asDotted ∧ form = .headed) then none
          else (alter asDotted change path form inner).map fun inner =>
            entries.put key (.table form inner)
      | some (.series tables) =>
          (alter asDotted change path .headed (tables.getLast?.getD [])).map fun inner =>
            entries.put key (.series (tables.dropLast ++ [inner]))
      | some _ => none

/-- Adds a value under a dotted key. Only tables that dotted keys made can be extended so, and no
key can be given twice. -/
def addPair (entries : Entries) (path : List String) (key : String) (value : Value) :
    Option Entries :=
  alter true (fun form inner =>
    if (path ≠ [] ∧ form ≠ .dotted) ∨ (inner.lookup key).isSome then none
    else some (inner ++ [(key, value)])) path .headed entries

/-- Adds an empty table under a header. A table that other headers passed through may get its own
header later. -/
def addTable (entries : Entries) (path : List String) (key : String) : Option Entries :=
  alter false (fun _ inner =>
    match inner.lookup key with
    | none => some (inner.put key (.table .headed []))
    | some (.table .passed children) => some (inner.put key (.table .headed children))
    | some _ => none) path .headed entries

/-- Adds an empty table to an array of tables. -/
def addElement (entries : Entries) (path : List String) (key : String) : Option Entries :=
  alter false (fun _ inner =>
    match inner.lookup key with
    | none => some (inner.put key (.series [[]]))
    | some (.series tables) => some (inner.put key (.series (tables ++ [[]])))
    | some _ => none) path .headed entries

end Entries

end Respell.Toml
