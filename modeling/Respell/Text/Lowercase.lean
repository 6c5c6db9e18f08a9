import Respell.Text.Blank
import Respell.Text.CasedTable
import Respell.Text.IgnorableTable
import Respell.Text.LowerTable

/-! # Lower case -/

namespace Respell.Text

def isCased (c : Char) : Bool := inRanges casedRanges c

def isCaseIgnorable (c : Char) : Bool := inRanges ignorableRanges c

/-- The first character that is not looked through is a cased letter. -/
def meetsCased (cs : List Char) : Bool :=
  ((cs.dropWhile isCaseIgnorable).head?.map isCased).getD false

/-- A sigma is final when a cased letter stands before it and none after it; `before` is read
backwards. -/
def isFinalSigma (before after : List Char) : Bool :=
  meetsCased before && !meetsCased after

/-- The lower-case form of a character apart from its neighbours. -/
def lowerChar (c : Char) : List Char :=
  if c.toNat < 0x80 then [c.toLower]
  else if c.toNat = 0x130 then ['i', Char.ofNat 0x307]
  else match lowerRuns.find? (·.contains c.toNat) with
    | some run => [Char.ofNat (run.target c.toNat)]
    | none => [c]

/-- Lower-cases a text that continues `before`, which is read backwards. -/
def lowerFrom (before : List Char) : List Char → List Char
  | [] => []
  | c :: cs =>
      (if c = 'Σ' then [if isFinalSigma before cs then 'ς' else 'σ'] else lowerChar c) ++
        lowerFrom (c :: before) cs

def lower (s : String) : String := String.ofList (lowerFrom [] s.toList)

end Respell.Text
