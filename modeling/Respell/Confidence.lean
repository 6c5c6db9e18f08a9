import Respell.Likeness.Score
import Respell.Sound

namespace Respell

/-- The whole number nearest to a score that is not negative; a half goes up. -/
def roundHalfUp (x : Float) : Nat :=
  let whole := x.toUInt64
  if 0.5 ≤ x - whole.toFloat then whole.toNat + 1 else whole.toNat

/-- The likeness of two words in percent. -/
def percent (a b : String) : Nat := roundHalfUp (Likeness.score a b * 100.0)

/-- Both words have three characters or more, and the first three are the same. -/
def sharesLead (a b : String) : Bool :=
  3 ≤ a.toList.length && 3 ≤ b.toList.length && a.toList.take 3 == b.toList.take 3

/-- A raise of a score that may not lead beyond `cap`. -/
structure Bonus where
  points : Nat
  cap : Nat
  deriving Repr, DecidableEq

namespace Bonus

/-- A score with the raise is brought down to the cap, even one that was above it before. -/
def apply (bonus : Bonus) (score : Nat) : Nat := min (score + bonus.points) bonus.cap

def sound : Bonus := ⟨15, 95⟩

def lead : Bonus := ⟨10, 98⟩

end Bonus

/-- The confidence in `candidate` for `word`: full if they differ in case at most. -/
def confidence (word candidate : String) : Nat :=
  let a := Text.lower word
  let b := Text.lower candidate
  if a = b then 100
  else
    let plain := percent a b
    let heard := if Sound.alike word candidate then Bonus.sound.apply plain else plain
    let led := if sharesLead a b then Bonus.lead.apply heard else heard
    min led 100

end Respell
