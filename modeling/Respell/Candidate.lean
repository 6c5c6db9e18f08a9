import Respell.Confidence
import Respell.Lexicon.Basic

namespace Respell

/-- What a candidate was found by. -/
inductive Evidence where
  | spelling
  | sound
  deriving Repr, DecidableEq

def Evidence.label : Evidence → String
  | spelling => "Standard"
  | sound => "Phonetic"

structure Candidate where
  word : String
  confidence : Nat
  evidence : Evidence
  deriving Repr, DecidableEq

/-- What it takes to be a candidate: the least likeness to be found by spelling, and the least
confidence to be kept. -/
structure Thresholds where
  cutoff : Float := 0.5
  minConfidence : Nat := 60

/-- A question for candidates: at most `limit` words for `word` in a role. -/
structure Query where
  word : String
  role : Role
  limit : Nat
  deriving Repr, DecidableEq

namespace Candidate

/-- How many words are found by spelling, when at most `limit` candidates are wanted: twice as
many, as far as a machine word of 64 bits can count. -/
def spellingLimit (limit : Nat) : Nat := min (2 * limit) 0xFFFFFFFFFFFFFFFF

/-- The words of a pool with a spelling close to `word`, the most alike first. -/
def bySpelling (cutoff : Float) (pool : List String) (word : String) (limit : Nat) :
    List String :=
  (Likeness.closest word pool (spellingLimit limit) cutoff).map (·.1)

/-- The words of a pool that sound like `word` and are not in `found`. -/
def bySound (pool found : List String) (word : String) : List String :=
  pool.filter fun candidate => !found.contains candidate && Sound.alike candidate word

def ofWord (target : String) (evidence : Evidence) (word : String) : Candidate :=
  ⟨word, Respell.confidence target word, evidence⟩

/-- The candidates for a query, best first. Of two candidates with the same confidence, the one
found by spelling comes first, then the one found earlier. -/
def rank (thresholds : Thresholds) (lexicon : Lexicon) (query : Query) : List Candidate :=
  let pool := lexicon.pool query.role
  let close := bySpelling thresholds.cutoff pool query.word query.limit
  let heard := bySound pool close query.word
  let found := close.map (ofWord query.word .spelling) ++ heard.map (ofWord query.word .sound)
  let kept := found.filter fun candidate => thresholds.minConfidence ≤ candidate.confidence
  (kept.mergeSort fun x y => y.confidence ≤ x.confidence).take query.limit

end Candidate

end Respell
