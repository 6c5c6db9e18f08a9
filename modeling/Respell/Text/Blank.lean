namespace Respell.Text

/-- Whether a character lies in one of some inclusive ranges of code points. -/
def inRanges (ranges : List (Nat × Nat)) (c : Char) : Bool :=
  ranges.any fun range => range.1 ≤ c.toNat && c.toNat ≤ range.2

def blankRanges : List (Nat × Nat) :=
  [(0x09, 0x0D), (0x20, 0x20), (0x85, 0x85), (0xA0, 0xA0), (0x1680, 0x1680), (0x2000, 0x200A),
    (0x2028, 0x2029), (0x202F, 0x202F), (0x205F, 0x205F), (0x3000, 0x3000)]

/-- The characters that separate words: tabs, line ends and the spaces of any script, but neither
the zero-width space nor the information separators. -/
def isBlank (c : Char) : Bool := inRanges blankRanges c

def dropBlanks (cs : List Char) : List Char := cs.dropWhile isBlank

/-- A text without the blanks at either end. -/
def trim (cs : List Char) : List Char := (dropBlanks (dropBlanks cs).reverse).reverse

end Respell.Text
