import Respell.Toml.Quoted
import Respell.Toml.Value

/-! # TOML numbers -/

namespace Respell.Toml

/-- More digits of a run, each after an underscore or not. -/
def digitsAfter (isDigit : Char → Bool) : List Char → Option (List Char × List Char)
  | [] => some ([], [])
  | [c] => if isDigit c then some ([c], []) else if c = '_' then none else some ([], [c])
  | c :: d :: cs =>
      if isDigit c then
        (digitsAfter isDigit (d :: cs)).map fun (digits, rest) => (c :: digits, rest)
      else if c = '_' then
        if isDigit d then
          (digitsAfter isDigit cs).map fun (digits, rest) => (d :: digits, rest)
        else none
      else some ([], c :: d :: cs)

/-- One digit or more. -/
def digits (isDigit : Char → Bool) : Reader (List Char) := do
  let first ← Reader.one isDigit
  return first :: (← (digitsAfter isDigit : Reader (List Char)))

/-- The digits before the point: a zero alone, or a number that begins with another digit. -/
def wholeDigits : Reader (List Char) := do
  if ← Reader.accept '0' then return ['0']
  else digits Char.isDigit

def valueOf (base : Nat) (digits : List Char) : Nat :=
  digits.foldl (fun value digit => base * value + hexValue digit) 0

def integer (number : Int) : Reader Value :=
  if -0x8000000000000000 ≤ number ∧ number < 0x8000000000000000 then return .integer number
  else failure

/-- An integer in another base after its mark; it has no sign. -/
def based (mark : String) (base : Nat) (isDigit : Char → Bool) : Reader Value := do
  Reader.text mark
  let ds ← digits isDigit
  integer (valueOf base ds)

/-- The double nearest to `mantissa * 10 ^ exponent`. Decimals beyond the range of doubles are not
computed. -/
def nearestFloat (mantissa : Nat) (exponent : Int) : Float :=
  let magnitude := Int.ofNat (Nat.toDigits 10 mantissa).length + exponent
  if mantissa = 0 ∨ magnitude < -400 then 0.0
  else if 400 < magnitude then 1.0 / 0.0
  else Float.ofScientific mantissa (exponent < 0) exponent.natAbs

/-- The sign of a number, true for minus. -/
def sign : Reader Bool := do
  if ← Reader.accept '-' then return true
  let _ ← Reader.accept '+'
  return false

def special : Reader Float :=
  (do Reader.text "inf"; return 1.0 / 0.0) <|> (do Reader.text "nan"; return 0.0 / 0.0)

/-- The digits after the point, if there is one. -/
def fraction : Reader (List Char) := do
  if ← Reader.accept '.' then digits Char.isDigit else return []

/-- The power of ten, if there is one. -/
def exponent : Reader (Option Int) := do
  match ← Reader.peek? with
  | some 'e' | some 'E' =>
      let _ ← Reader.one fun _ => true
      let negative ← sign
      let power := Int.ofNat (valueOf 10 (← digits Char.isDigit))
      return some (if negative then -power else power)
  | _ => return none

def decimal : Reader Value := do
  let negative ← sign
  let whole ← wholeDigits
  let places ← fraction
  let power ← exponent
  if places.isEmpty && power.isNone then
    let number := Int.ofNat (valueOf 10 whole)
    integer (if negative then -number else number)
  else
    let size := nearestFloat (valueOf 10 (whole ++ places)) (power.getD 0 - Int.ofNat places.length)
    if negative then return .float (-size)
    else if size.isInf then failure
    else return .float size

def number : Reader Value :=
  based "0x" 16 isHexDigit <|>
    based "0o" 8 (fun c => '0' ≤ c && c ≤ '7') <|>
    based "0b" 2 (fun c => c == '0' || c == '1') <|>
    decimal <|>
    (do
      let negative ← sign
      let size ← special
      return .float (if negative then -size else size))

end Respell.Toml
