import Respell.Lexicon.Basic

/-! # Drafts of lexicons -/

namespace Respell.Lexicon

/-- Why a draft makes no lexicon. -/
inductive Error where
  | emptyWord (kind : WordClass)
  | conflict (word : String) (existing requested : WordClass)
  | reservedWord (word : String) (kind : WordClass)
  deriving Repr, DecidableEq

def Error.message : Error → String
  | emptyWord kind => "empty " ++ kind.label ++ " name"
  | conflict word existing requested =>
      "'" ++ word ++ "' is already a " ++ existing.label ++ " and cannot also be a " ++
        requested.label
  | reservedWord word kind => "reserved command '" ++ word ++ "' is also a " ++ kind.label

/-- Adds a word to the pool of its role. A method that is in its pool already stays as it is. -/
def addToPool (lexicon : Lexicon) (word : String) (kind : WordClass) (firstMethod : Bool) :
    Lexicon :=
  match kind with
  | .keyword => { lexicon with keywords := lexicon.keywords ++ [word] }
  | .builtin => { lexicon with builtins := lexicon.builtins ++ [word] }
  | .arrayMethod | .stringMethod | .objectMethod =>
      if firstMethod then { lexicon with methods := lexicon.methods ++ [word] } else lexicon

/-- Adds a word to the list of all words. -/
def addToWords (lexicon : Lexicon) (word : String) : Lexicon :=
  { lexicon with
    words := lexicon.words ++ [word]
    folded := lexicon.folded ++ [Text.lower word] }

/-- Enters a word in a class. To enter it there again changes nothing. -/
def register (lexicon : Lexicon) (entry : String × WordClass) : Except Error Lexicon :=
  let (word, kind) := entry
  let known := lexicon.classes word
  if word = "" then .error (.emptyWord kind)
  else if known.contains kind then .ok lexicon
  else match known.find? fun existing => existing.role ≠ kind.role with
    | some existing => .error (.conflict word existing kind)
    | none =>
        let first := known.isEmpty
        let firstMethod := kind.role = .method && !known.any fun existing => existing.role = .method
        let tagged := { lexicon with tags := lexicon.tags ++ [(word, kind)] }
        let pooled := tagged.addToPool word kind firstMethod
        .ok (if first then pooled.addToWords word else pooled)

/-- Enters a reserved name, which must not be a word. -/
def reserve (lexicon : Lexicon) (name : String) : Except Error Lexicon :=
  match lexicon.firstClass? name with
  | some kind => .error (.reservedWord name kind)
  | none =>
      .ok (if lexicon.reserved.contains name then lexicon
        else { lexicon with reserved := lexicon.reserved ++ [name] })

/-- Words and reserved names in the order in which they are to be entered. -/
structure Draft where
  words : List (String × WordClass) := []
  reserved : List String := []
  deriving Repr, DecidableEq

namespace Draft

def addWord (draft : Draft) (kind : WordClass) (word : String) : Draft :=
  { draft with words := draft.words ++ [(word, kind)] }

def addWords (draft : Draft) (kind : WordClass) (words : List String) : Draft :=
  { draft with words := draft.words ++ words.map fun word => (word, kind) }

def addReserved (draft : Draft) (names : List String) : Draft :=
  { draft with reserved := draft.reserved ++ names }

def clearReserved (draft : Draft) : Draft := { draft with reserved := [] }

/-- Enters all words, then all reserved names; the first entry that fails is reported. -/
def build (draft : Draft) : Except Error Lexicon := do
  let lexicon ← draft.words.foldlM register {}
  draft.reserved.foldlM reserve lexicon

end Draft

end Respell.Lexicon
