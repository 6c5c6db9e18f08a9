/-! # Common blocks -/

namespace Respell.Likeness

/-- A stretch of `size` characters that two words share, at `left` in the one and `right` in the
other. -/
structure Block where
  left : Nat
  right : Nat
  size : Nat
  deriving Repr, DecidableEq

namespace Block

/-- The sizes of the blocks that end at `x` and at each character of `b`, given the sizes of those
that end one character earlier in the first word. -/
def nextRow (x : Char) (b : List Char) (row : List Nat) : List Nat :=
  List.zipWith (fun y size => if x = y then size + 1 else 0) b (0 :: row)

/-- Compares `best` with the blocks that end at place `i` of the first word and at places `j`,
`j + 1`, … of the second; only a longer block replaces it. -/
def improve (i : Nat) : Nat → List Nat → Block → Block
  | _, [], best => best
  | j, size :: row, best =>
      improve i (j + 1) row
        (if best.size < size then ⟨i + 1 - size, j + 1 - size, size⟩ else best)

/-- Goes on with the characters of the first word from place `i` on. -/
def searchFrom (b : List Char) : Nat → List Char → List Nat → Block → Block
  | _, [], _, best => best
  | i, x :: a, row, best =>
      let row := nextRow x b row
      searchFrom b (i + 1) a row (improve i 0 row best)

/-- The longest common block; of several, the one earliest in `a`, then earliest in `b`. -/
def longest (a b : List Char) : Block :=
  searchFrom b 0 a (b.map fun _ => 0) ⟨0, 0, 0⟩

/-- What lies to the left of a block in both words. -/
def leftOf (block : Block) (a b : List Char) : List Char × List Char :=
  (a.take block.left, b.take block.right)

/-- What lies to the right of a block in both words. -/
def rightOf (block : Block) (a b : List Char) : List Char × List Char :=
  (a.drop (block.left + block.size), b.drop (block.right + block.size))

end Block

/-- The number of characters in the blocks of all the pairs still to be compared. -/
def matchedIn : Nat → List (List Char × List Char) → Nat
  | _, [] => 0
  | 0, _ :: _ => 0
  | fuel + 1, (a, b) :: pairs =>
      let block := Block.longest a b
      if block.size = 0 then matchedIn fuel pairs
      else block.size + matchedIn fuel (block.rightOf a b :: block.leftOf a b :: pairs)

/-- The number of characters in the common blocks of two words. A pair whose first word has `n`
characters leads to at most `2 * n + 1` comparisons. -/
def matched (a b : List Char) : Nat :=
  matchedIn (2 * a.length + 1) [(a, b)]

end Respell.Likeness
