import Respell.Likeness.Block

/-! # Scores of likeness -/

namespace Respell.Likeness

/-- The score of two words, from 0 for no common character to 1 for equal words. -/
def score (a b : String) : Float :=
  let total := a.toList.length + b.toList.length
  if total = 0 then 1.0
  else Float.ofNat (2 * matched a.toList b.toList) / Float.ofNat total

/-- Scores carry no sign, so the order of their bits is the order of their values. -/
def atLeast (x y : Float) : Bool := y.toBits ≤ x.toBits

/-- The `limit` words of a pool most like `word` among those that reach the cutoff, best first;
words with the same score keep the order of the pool. -/
def closest (word : String) (pool : List String) (limit : Nat) (cutoff : Float) :
    List (String × Float) :=
  let scored := pool.map fun candidate => (candidate, score word candidate)
  let close := scored.filter fun entry => cutoff ≤ entry.2
  (close.mergeSort fun x y => atLeast x.2 y.2).take limit

end Respell.Likeness
