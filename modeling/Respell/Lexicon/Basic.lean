import Respell.Role
import Respell.Text.Lowercase

namespace Respell

inductive WordClass where
  | keyword
  | builtin
  | arrayMethod
  | stringMethod
  | objectMethod
  deriving Repr, DecidableEq

namespace WordClass

def label : WordClass → String
  | keyword => "keyword"
  | builtin => "builtin function"
  | arrayMethod => "array method"
  | stringMethod => "string method"
  | objectMethod => "object method"

/-- The role that words of a class are used in. A word has one such role, though it may be a method
of several kinds of values. -/
def role : WordClass → Role
  | keyword => .keyword
  | builtin => .function
  | arrayMethod | stringMethod | objectMethod => .method

end WordClass

/-- Words with their classes, the pools of words by role, and reserved names. -/
structure Lexicon where
  /-- Each word with each of its classes, in the order of entry. -/
  tags : List (String × WordClass) := []
  words : List String := []
  keywords : List String := []
  builtins : List String := []
  methods : List String := []
  /-- The lower-case forms of the words. -/
  folded : List String := []
  reserved : List String := []
  deriving Repr, DecidableEq

namespace Lexicon

/-- The classes of a word in the order of entry. -/
def classes (lexicon : Lexicon) (word : String) : List WordClass :=
  lexicon.tags.filterMap fun tag => if tag.1 = word then some tag.2 else none

def firstClass? (lexicon : Lexicon) (word : String) : Option WordClass :=
  (lexicon.classes word).head?

def hasClass (lexicon : Lexicon) (word : String) (kind : WordClass) : Bool :=
  (lexicon.classes word).contains kind

def isKeyword (lexicon : Lexicon) (word : String) : Bool := lexicon.hasClass word .keyword

def isBuiltin (lexicon : Lexicon) (word : String) : Bool := lexicon.hasClass word .builtin

def isMethod (lexicon : Lexicon) (word : String) : Bool :=
  (lexicon.classes word).any fun kind => kind.role = .method

def knows (lexicon : Lexicon) (word : String) : Bool :=
  lexicon.tags.any fun tag => tag.1 = word

/-- Some word has the same lower-case form. -/
def knowsFolded (lexicon : Lexicon) (word : String) : Bool :=
  lexicon.knows word || lexicon.folded.contains (Text.lower word)

def isReserved (lexicon : Lexicon) (word : String) : Bool := lexicon.reserved.contains word

/-- Reserved names and known words, in whatever case, are never corrected. -/
def exempts (lexicon : Lexicon) (word : String) : Bool :=
  lexicon.isReserved word || lexicon.knowsFolded word

/-- The words that may be suggested in a role. -/
def pool (lexicon : Lexicon) : Role → List String
  | .method => lexicon.methods
  | .function => lexicon.builtins
  | .keyword => lexicon.keywords
  | .general => lexicon.words

def size (lexicon : Lexicon) : Nat := lexicon.words.length

/-- The reserved names in the order of their characters. -/
def reservedSorted (lexicon : Lexicon) : List String :=
  lexicon.reserved.mergeSort fun a b => a ≤ b

end Lexicon

end Respell
