import Respell.Toml.Reader

namespace Respell.Toml

/-- A number of exactly `count` digits between two bounds. -/
def field (count low high : Nat) : Reader Nat := do
  let digits ← Reader.exactly Char.isDigit count
  let value := digits.foldl (fun value digit => 10 * value + (digit.toNat - '0'.toNat)) 0
  if low ≤ value ∧ value ≤ high then return value else failure

def daysIn (year month : Nat) : Nat :=
  if month = 2 then
    if year % 4 = 0 ∧ (year % 100 ≠ 0 ∨ year % 400 = 0) then 29 else 28
  else if month = 4 ∨ month = 6 ∨ month = 9 ∨ month = 11 then 30
  else 31

def date : Reader Unit := do
  let year ← field 4 0 9999
  Reader.char '-'
  let month ← field 2 1 12
  Reader.char '-'
  let _ ← field 2 1 (daysIn year month)

/-- The last second of a minute may be a leap second. -/
def timeOfDay : Reader Unit := do
  let _ ← field 2 0 23
  Reader.char ':'
  let _ ← field 2 0 59
  Reader.char ':'
  let _ ← field 2 0 60
  if ← Reader.accept '.' then
    let _ ← Reader.one Char.isDigit
    let _ ← Reader.run Char.isDigit

def zoneOffset : Reader Unit := do
  let mark ← Reader.one fun c => c == 'Z' || c == 'z' || c == '+' || c == '-'
  if mark == '+' || mark == '-' then
    let _ ← field 2 0 23
    Reader.char ':'
    let _ ← field 2 0 59

/-- A part that may be missing. -/
def optional (part : Reader Unit) : Reader Unit := part <|> return

def moment : Reader Unit :=
  (do
    date
    optional do
      let _ ← Reader.one fun c => c == 'T' || c == 't' || c == ' '
      timeOfDay
      optional zoneOffset) <|>
    timeOfDay

/-- A date or time as it is written. -/
def momentText : Reader String := do
  let before ← get
  moment
  let after ← get
  return String.ofList (before.take (before.length - after.length))

end Respell.Toml
