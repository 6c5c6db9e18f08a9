/-!
# Shortest decimals

The decimal with the fewest digits that reads back as a given binary number.
-/

namespace Respell.Decimal

/-- The value of a double: a finite one is `mantissa * 2 ^ exponent`, up to its sign. -/
inductive Binary64 where
  | nan
  | infinite (negative : Bool)
  | finite (negative : Bool) (mantissa : Nat) (exponent : Int)
  deriving Repr, DecidableEq

/-- The number of fractions that a double can have, and the mantissa of a power of two. -/
def fractionUnit : Nat := 0x10000000000000

def Binary64.ofFloat (x : Float) : Binary64 :=
  let bits := x.toBits.toNat
  let negative := 0x8000000000000000 ≤ bits
  let biased := bits / fractionUnit % 0x800
  let fraction := bits % fractionUnit
  if biased = 2047 then if fraction = 0 then .infinite negative else .nan
  else if biased = 0 then .finite negative fraction (-1074)
  else .finite negative (fractionUnit + fraction) (Int.ofNat biased - 1075)

/-- The numbers that read back as one double, in quarters of its last place: the double itself is
`4 * mantissa`, and the ends belong to it if its mantissa is even. -/
structure Cell where
  low : Nat
  mid : Nat
  high : Nat
  closed : Bool
  deriving Repr, DecidableEq

/-- Below a power of two the doubles lie twice as dense as above it. -/
def Cell.of (mantissa : Nat) (exponent : Int) : Cell :=
  let mid := 4 * mantissa
  let low := if mantissa = fractionUnit ∧ exponent ≠ -1074 then mid - 1 else mid - 2
  ⟨low, mid, mid + 2, mantissa % 2 = 0⟩

/-- A power of `base` if `power` is positive, else 1. -/
def positivePower (base : Nat) (power : Int) : Nat := Nat.pow base power.toNat

/-- The number `digits * 10 ^ exponent`. -/
structure Scaled where
  digits : Nat
  exponent : Int
  deriving Repr, DecidableEq

/-- Quarters of the last place are multiplied by `up`, decimals by `down`, to make them comparable:
with a binary unit of `2 ^ quarter` and a decimal unit of `10 ^ power`. -/
structure Scale where
  up : Nat
  down : Nat

def Scale.of (quarter power : Int) : Scale :=
  ⟨positivePower 2 quarter * positivePower 10 (-power),
    positivePower 2 (-quarter) * positivePower 10 power⟩

def Cell.holds (cell : Cell) (scale : Scale) (digits : Nat) : Bool :=
  let value := digits * scale.down
  if cell.closed then cell.low * scale.up ≤ value && value ≤ cell.high * scale.up
  else cell.low * scale.up < value && value < cell.high * scale.up

/-- The neighbour of the number on the grid of multiples of `10 ^ power` that reads back and is
nearest to it. The upper one is taken if both are as near. -/
def Cell.onGrid? (cell : Cell) (quarter power : Int) : Option Scaled :=
  let scale := Scale.of quarter power
  let value := cell.mid * scale.up
  let below := value / scale.down
  let above := below + 1
  match cell.holds scale below, cell.holds scale above with
  | true, false => some ⟨below, power⟩
  | false, true => some ⟨above, power⟩
  | true, true =>
      if value - below * scale.down < above * scale.down - value then some ⟨below, power⟩
      else some ⟨above, power⟩
  | false, false => none

/-- The power of ten of the leading digit of a number `num / den`. -/
def leadingPower (num den : Nat) : Int :=
  if den ≤ num then Int.ofNat (Nat.toDigits 10 (num / den)).length - 1
  else
    let places := (Nat.toDigits 10 (den / num)).length
    if den = num * Nat.pow 10 (places - 1) then 1 - Int.ofNat places else -Int.ofNat places

/-- Tries grids with more and more digits, starting from the one of the leading digit. -/
def Cell.search (cell : Cell) (quarter : Int) : Nat → Int → Option Scaled
  | 0, _ => none
  | tries + 1, power =>
      (cell.onGrid? quarter power).or (cell.search quarter tries (power - 1))

/-- The shortest decimal that reads back as `mantissa * 2 ^ exponent`; seventeen digits always
suffice. -/
def shortest (mantissa : Nat) (exponent : Int) : Scaled :=
  if mantissa = 0 then ⟨0, 0⟩
  else
    let cell := Cell.of mantissa exponent
    let quarter := exponent - 2
    let scale := Scale.of quarter 0
    let power := leadingPower (cell.mid * scale.up) scale.down
    (cell.search quarter 17 power).getD ⟨mantissa, 0⟩

end Respell.Decimal
