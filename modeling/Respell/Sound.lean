import Respell.Text.Lowercase

/-! # How words sound -/

namespace Respell.Sound

/-- Spellings and what stands for them, in the order in which they are replaced. -/
def clusters : List (String × String) :=
  [("chh", "c"), ("ph", "f"), ("kh", "k"), ("gh", "g"), ("bh", "b"), ("dh", "d"), ("th", "t"),
    ("jh", "j"), ("sh", "s"), ("ch", "c"), ("ck", "k"), ("aa", "a"), ("ee", "i"), ("oo", "u"),
    ("w", "v"), ("z", "j")]

/-- Replaces the occurrences of `old` from left to right; the first `skip` characters belong to
one that was replaced already. -/
def replaceFrom (old new : List Char) : Nat → List Char → List Char
  | _, [] => []
  | skip + 1, _ :: cs => replaceFrom old new skip cs
  | 0, c :: cs =>
      if old.isPrefixOf (c :: cs) then new ++ replaceFrom old new (old.length - 1) cs
      else c :: replaceFrom old new 0 cs

def replaceCluster (cs : List Char) (cluster : String × String) : List Char :=
  replaceFrom cluster.1.toList cluster.2.toList 0 cs

/-- The form of a word. Clusters are recognised in small letters only, before lower-casing. -/
def form (word : String) : String :=
  Text.lower (String.ofList (clusters.foldl replaceCluster word.toList))

def alike (a b : String) : Bool := form a == form b

end Respell.Sound
