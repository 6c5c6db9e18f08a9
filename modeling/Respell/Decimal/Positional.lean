import Respell.Decimal.Shortest

/-! # Positional notation -/

namespace Respell.Decimal

/-- The digits after the point without the zeros at their end. -/
def dropTrailingZeros (digits : List Char) : List Char :=
  (digits.reverse.dropWhile (· == '0')).reverse

/-- A decimal in positional notation. -/
def Scaled.positional (x : Scaled) : List Char :=
  let digits := Nat.toDigits 10 x.digits
  match x.exponent with
  | .ofNat zeros => if x.digits = 0 then ['0'] else digits ++ List.replicate zeros '0'
  | .negSucc n =>
      let places := n + 1
      let padded := List.replicate (places + 1 - digits.length) '0' ++ digits
      let whole := padded.take (padded.length - places)
      let fraction := dropTrailingZeros (padded.drop (padded.length - places))
      if fraction.isEmpty then whole else whole ++ '.' :: fraction

/-- A double with as many digits as it takes to read it back, in positional notation. -/
def ofFloat (x : Float) : String :=
  let signed (negative : Bool) (body : List Char) :=
    String.ofList (if negative then '-' :: body else body)
  match Binary64.ofFloat x with
  | .nan => "NaN"
  | .infinite negative => signed negative "inf".toList
  | .finite negative mantissa exponent =>
      signed negative (shortest mantissa exponent).positional

end Respell.Decimal
