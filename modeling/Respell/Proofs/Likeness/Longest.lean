import Respell.Likeness.Block

/-!
# The longest common block

A row of the search is told by how much of what was read of both words is alike at its end.
-/

namespace Respell.Likeness

namespace Block

/-- With how many characters two words begin alike. -/
def agreement : List Char → List Char → Nat
  | x :: p, y :: q => if x = y then agreement p q + 1 else 0
  | _, _ => 0

theorem agreement_nil_right (p : List Char) : agreement p [] = 0 := by
  cases p <;> rfl

theorem le_agreement_iff {p q : List Char} {size : Nat} :
    size ≤ agreement p q ↔ size ≤ p.length ∧ size ≤ q.length ∧ p.take size = q.take size := by
  induction p generalizing q size with
  | nil => cases q <;> simp +contextual [agreement]
  | cons x p ih =>
      cases q with
      | nil => simp +contextual [agreement]
      | cons y q =>
          cases size with
          | zero => simp
          | succ size =>
              by_cases hxy : x = y
              · simp [agreement, hxy, ih]
              · simp [agreement, hxy]

/-- The sizes of the blocks that end with the last character read of the first word and with each
character of the rest of the second. What was read of both words is given backwards. -/
def row (p q : List Char) : List Char → List Nat
  | [] => []
  | y :: rest => agreement p (y :: q) :: row p (y :: q) rest

theorem row_nil (q rest : List Char) : row [] q rest = rest.map fun _ => 0 := by
  induction rest generalizing q with
  | nil => rfl
  | cons y rest ih => simp [row, agreement, ih]

theorem zipWith_row (x : Char) (p q rest : List Char) :
    List.zipWith (fun y size => if x = y then size + 1 else 0) rest
        (agreement p q :: row p q rest) = row (x :: p) q rest := by
  induction rest generalizing q with
  | nil => rfl
  | cons y rest ih =>
      rw [List.zipWith_cons_cons, row, ih (y :: q)]
      rfl

/-- A row leads to the next one, so none has to be made from the words themselves. -/
theorem nextRow_row (x : Char) (p b : List Char) :
    nextRow x b (row p [] b) = row (x :: p) [] b := by
  have hrow := zipWith_row x p [] b
  rwa [agreement_nil_right] at hrow

structure Shared (a b : List Char) (block : Block) : Prop where
  left_le : block.left + block.size ≤ a.length
  right_le : block.right + block.size ≤ b.length
  same : a.extract block.left (block.left + block.size) =
    b.extract block.right (block.right + block.size)

theorem shared_empty (a b : List Char) : Shared a b ⟨0, 0, 0⟩ :=
  ⟨Nat.zero_le _, Nat.zero_le _, by simp⟩

theorem extract_append_left (u s t : List Char) :
    (u ++ s ++ t).extract u.length (u.length + s.length) = s := by
  simp [List.append_assoc]

theorem extract_reverse_append {p : List Char} {left size : Nat} (h : left + size = p.length)
    (rest : List Char) :
    (p.reverse ++ rest).extract left (left + size) = (p.take size).reverse := by
  have hparts : (p.drop size).reverse ++ (p.take size).reverse = p.reverse := by
    rw [← List.reverse_append, List.take_append_drop]
  have hleft : (p.drop size).reverse.length = left := by
    rw [List.length_reverse, List.length_drop]
    omega
  have hsize : (p.take size).reverse.length = size := by
    rw [List.length_reverse, List.length_take]
    omega
  have hextract := extract_append_left (p.drop size).reverse (p.take size).reverse rest
  rwa [hparts, hleft, hsize] at hextract

/-- How large a shared block that ends at given places can be: all those up to some size are
shared. -/
structure LargestEnding (a b : List Char) (i j size : Nat) : Prop where
  le_left : size ≤ i
  le_right : size ≤ j
  shared_iff : ∀ block : Block, block.left + block.size = i → block.right + block.size = j →
    (block.Shared a b ↔ block.size ≤ size)

/-- Where the reading has come to, it is told by how much is alike at the end of what was read. -/
theorem largestEnding_agreement (p q rest rest' : List Char) :
    LargestEnding (p.reverse ++ rest) (q.reverse ++ rest') p.length q.length (agreement p q) := by
  have hlargest := le_agreement_iff.mp (Nat.le_refl (agreement p q))
  refine ⟨hlargest.1, hlargest.2.1, ?_⟩
  intro block hleft hright
  rw [le_agreement_iff]
  constructor
  · intro h
    have hsame := h.same
    rw [extract_reverse_append hleft, extract_reverse_append hright, List.reverse_inj] at hsame
    exact ⟨by omega, by omega, hsame⟩
  · intro h
    refine ⟨?_, ?_, ?_⟩
    · rw [List.length_append, List.length_reverse]
      omega
    · rw [List.length_append, List.length_reverse]
      omega
    · rw [extract_reverse_append hleft, extract_reverse_append hright, h.2.2]

/-- One block begins earlier than another in the first word, or in the second if they begin at the
same place in the first. -/
def StartsBefore (x y : Block) : Prop :=
  x.left < y.left ∨ x.left = y.left ∧ x.right < y.right

def Outranks (x y : Block) : Prop :=
  y.size < x.size ∨ y.size = x.size ∧ ¬y.StartsBefore x

theorem Outranks.size_le {x y : Block} (h : x.Outranks y) : y.size ≤ x.size := by
  simp only [Outranks] at h
  omega

theorem Outranks.not_startsBefore {x y : Block} (h : x.Outranks y) (hsize : y.size = x.size) :
    ¬y.StartsBefore x := by
  rcases h with hless | hsame
  · omega
  · exact hsame.2

/-- A block that ends before place `i` of the first word, or at that place and not after place `j`
of the second. The search comes to the ends of blocks in this order. -/
def EndsBy (i j : Nat) (block : Block) : Prop :=
  block.left + block.size < i ∨ block.left + block.size = i ∧ block.right + block.size ≤ j

/-- Of the shared blocks that end by some place, the best one. An empty one stands for none. -/
structure BestUntil (a b : List Char) (i j : Nat) (best : Block) : Prop where
  shared : best.Shared a b
  ends : best.EndsBy i j
  outranks : ∀ other, other.Shared a b → 0 < other.size → other.EndsBy i j → best.Outranks other

theorem bestUntil_empty (a b : List Char) : BestUntil a b 1 0 ⟨0, 0, 0⟩ := by
  refine ⟨shared_empty a b, Or.inl (by decide), ?_⟩
  intro other _ hsize hends
  simp only [EndsBy] at hends
  omega

theorem EndsBy.cases {i j : Nat} {block : Block} (h : block.EndsBy i (j + 1)) :
    block.EndsBy i j ∨ block.left + block.size = i ∧ block.right + block.size = j + 1 := by
  simp only [EndsBy] at h ⊢
  omega

/-- One more place of the second word: only the blocks that end there are new. -/
theorem BestUntil.step {a b : List Char} {i j size : Nat} {best : Block}
    (h : BestUntil a b i j best) (hsize : LargestEnding a b i (j + 1) size) :
    BestUntil a b i (j + 1)
      (if best.size < size then ⟨i - size, j + 1 - size, size⟩ else best) := by
  have hleft : i - size + size = i := Nat.sub_add_cancel hsize.le_left
  have hright : j + 1 - size + size = j + 1 := Nat.sub_add_cancel hsize.le_right
  split
  · rename_i hlonger
    refine ⟨(hsize.shared_iff _ hleft hright).mpr (Nat.le_refl size),
      Or.inr ⟨hleft, Nat.le_of_eq hright⟩, ?_⟩
    intro other hshared hpos hends
    rcases hends.cases with hold | ⟨hleft', hright'⟩
    · have hle := (h.outranks other hshared hpos hold).size_le
      exact Or.inl (Nat.lt_of_le_of_lt hle hlonger)
    · have hle := (hsize.shared_iff other hleft' hright').mp hshared
      simp only [Outranks, StartsBefore]
      omega
  · rename_i hshorter
    have hbefore := h.ends
    simp only [EndsBy] at hbefore
    refine ⟨h.shared, ?_, ?_⟩
    · simp only [EndsBy]
      omega
    · intro other hshared hpos hends
      rcases hends.cases with hold | ⟨hleft', hright'⟩
      · exact h.outranks other hshared hpos hold
      · -- the best block has ended before, so one of the same size begins later
        have hle := (hsize.shared_iff other hleft' hright').mp hshared
        simp only [Outranks, StartsBefore]
        omega

theorem BestUntil.improve {p q rest rest' : List Char} {x : Char} {best : Block}
    (h : BestUntil ((x :: p).reverse ++ rest) (q.reverse ++ rest') (p.length + 1) q.length best) :
    BestUntil ((x :: p).reverse ++ rest) (q.reverse ++ rest') (p.length + 1)
      (q.reverse ++ rest').length (improve p.length q.length (row (x :: p) q rest') best) := by
  induction rest' generalizing q best with
  | nil => simpa [row, Block.improve] using h
  | cons y rest' ih =>
      have hword : q.reverse ++ y :: rest' = (y :: q).reverse ++ rest' := by simp
      rw [hword] at h ⊢
      exact ih (h.step (largestEnding_agreement (x :: p) (y :: q) rest rest'))

theorem BestUntil.next {a b : List Char} {i : Nat} {best : Block}
    (h : BestUntil a b i b.length best) : BestUntil a b (i + 1) 0 best := by
  have hends := h.ends
  refine ⟨h.shared, ?_, ?_⟩
  · simp only [EndsBy] at hends ⊢
    omega
  · intro other hshared hpos hother
    apply h.outranks other hshared hpos
    have hright := hshared.right_le
    simp only [EndsBy] at hother ⊢
    omega

theorem BestUntil.searchFrom {p rest b : List Char} {best : Block}
    (h : BestUntil (p.reverse ++ rest) b (p.length + 1) 0 best) :
    BestUntil (p.reverse ++ rest) b ((p.reverse ++ rest).length + 1) 0
      (searchFrom b p.length rest (row p [] b) best) := by
  induction rest generalizing p best with
  | nil => simpa [Block.searchFrom] using h
  | cons x rest ih =>
      have hword : p.reverse ++ x :: rest = (x :: p).reverse ++ rest := by simp
      rw [hword] at h ⊢
      have hrow : BestUntil ((x :: p).reverse ++ rest) b (p.length + 1) b.length
          (Block.improve p.length 0 (row (x :: p) [] b) best) := BestUntil.improve (q := []) h
      rw [Block.searchFrom, nextRow_row]
      exact ih hrow.next

theorem bestUntil_longest (a b : List Char) : BestUntil a b (a.length + 1) 0 (longest a b) := by
  have hsearch := BestUntil.searchFrom (p := []) (bestUntil_empty a b)
  rw [row_nil] at hsearch
  exact hsearch

theorem shared_longest (a b : List Char) : (longest a b).Shared a b :=
  (bestUntil_longest a b).shared

theorem longest_outranks {a b : List Char} {other : Block} (h : other.Shared a b)
    (hpos : 0 < other.size) : (longest a b).Outranks other :=
  (bestUntil_longest a b).outranks other h hpos (Or.inl (Nat.lt_succ_of_le h.left_le))

end Block

/-- A stretch of a word, from one place up to another. -/
structure Window (word : List Char) where
  start : Nat
  stop : Nat
  start_le_stop : start ≤ stop
  stop_le_length : stop ≤ word.length

namespace Window

variable {word : List Char}

def chars (window : Window word) : List Char := word.extract window.start window.stop

theorem length_chars (window : Window word) :
    window.chars.length = window.stop - window.start := by
  have hstop := window.stop_le_length
  simp only [chars, List.length_take, List.length_drop]
  omega

theorem extract_chars (window : Window word) {i j : Nat} (h : window.start + j ≤ window.stop) :
    window.chars.extract i j = word.extract (window.start + i) (window.start + j) := by
  simp only [chars, List.extract_eq_take_drop, List.drop_take, List.drop_drop, List.take_take]
  congr 1
  omega

def whole (word : List Char) : Window word := ⟨0, word.length, Nat.zero_le _, Nat.le_refl _⟩

theorem chars_whole (word : List Char) : (whole word).chars = word := by
  simp [chars, whole]

def take (window : Window word) (size : Nat) (h : size ≤ window.chars.length) : Window word where
  start := window.start
  stop := window.start + size
  start_le_stop := Nat.le_add_right _ _
  stop_le_length := by
    have hstart := window.start_le_stop
    have hstop := window.stop_le_length
    rw [window.length_chars] at h
    omega

def drop (window : Window word) (size : Nat) (h : size ≤ window.chars.length) : Window word where
  start := window.start + size
  stop := window.stop
  start_le_stop := by
    have hstart := window.start_le_stop
    rw [window.length_chars] at h
    omega
  stop_le_length := window.stop_le_length

theorem chars_take (window : Window word) {size : Nat} (h : size ≤ window.chars.length) :
    (window.take size h).chars = window.chars.take size := by
  have hsize := h
  rw [window.length_chars] at hsize
  simp only [chars, take, List.extract_eq_take_drop, List.take_take]
  congr 1
  omega

theorem chars_drop (window : Window word) {size : Nat} (h : size ≤ window.chars.length) :
    (window.drop size h).chars = window.chars.drop size := by
  simp only [chars, drop, List.extract_eq_take_drop, List.drop_take, List.drop_drop]
  congr 1
  omega

end Window

namespace Block

def shift (block : Block) (left right : Nat) : Block :=
  ⟨left + block.left, right + block.right, block.size⟩

/-- The longest common block of two stretches. -/
def longestIn {a b : List Char} (s : Window a) (t : Window b) : Block :=
  (longest s.chars t.chars).shift s.start t.start

/-- The two words are the same along the block, which lies in given stretches of them. -/
structure Within {a b : List Char} (s : Window a) (t : Window b) (block : Block) : Prop where
  start_le_left : s.start ≤ block.left
  left_le_stop : block.left + block.size ≤ s.stop
  start_le_right : t.start ≤ block.right
  right_le_stop : block.right + block.size ≤ t.stop
  same : a.extract block.left (block.left + block.size) =
    b.extract block.right (block.right + block.size)

section Windows

variable {a b : List Char} {s : Window a} {t : Window b}

theorem within_shift_iff {block : Block} :
    (block.shift s.start t.start).Within s t ↔ block.Shared s.chars t.chars := by
  have hs := s.start_le_stop
  have ht := t.start_le_stop
  constructor
  · intro h
    have hleft : s.start + (block.left + block.size) ≤ s.stop := by
      rw [← Nat.add_assoc]
      exact h.left_le_stop
    have hright : t.start + (block.right + block.size) ≤ t.stop := by
      rw [← Nat.add_assoc]
      exact h.right_le_stop
    refine ⟨by rw [s.length_chars]; omega, by rw [t.length_chars]; omega, ?_⟩
    rw [s.extract_chars hleft, t.extract_chars hright, ← Nat.add_assoc, ← Nat.add_assoc]
    exact h.same
  · intro h
    have hleft := h.left_le
    have hright := h.right_le
    have hsame := h.same
    rw [s.length_chars] at hleft
    rw [t.length_chars] at hright
    rw [s.extract_chars (by omega), t.extract_chars (by omega), ← Nat.add_assoc,
      ← Nat.add_assoc] at hsame
    refine ⟨Nat.le_add_right _ _, ?_, Nat.le_add_right _ _, ?_, hsame⟩
    · simp only [shift]
      omega
    · simp only [shift]
      omega

theorem Within.exists_shift {block : Block} (h : block.Within s t) :
    ∃ inner : Block, inner.shift s.start t.start = block := by
  refine ⟨⟨block.left - s.start, block.right - t.start, block.size⟩, ?_⟩
  simp only [shift, Nat.add_sub_cancel' h.start_le_left, Nat.add_sub_cancel' h.start_le_right]

theorem outranks_shift_iff {x y : Block} {left right : Nat} :
    (x.shift left right).Outranks (y.shift left right) ↔ x.Outranks y := by
  simp only [Outranks, StartsBefore, shift]
  omega

/-- The block that is found in two stretches lies in them and is common to both words. No common
block in the stretches is longer. If it is not empty, no other one of its size begins earlier in
the first word, or at the same place there and earlier in the second. -/
theorem longestIn_best (s : Window a) (t : Window b) :
    let block := longestIn s t
    block.Within s t ∧
    (∀ other : Block, other.Within s t → other.size ≤ block.size) ∧
    (0 < block.size → ∀ other : Block, other.Within s t → other.size = block.size →
      ¬other.StartsBefore block) := by
  intro block
  have houtranks : ∀ other : Block, other.Within s t → 0 < other.size → block.Outranks other := by
    intro other hother hpos
    obtain ⟨inner, rfl⟩ := hother.exists_shift
    exact outranks_shift_iff.mpr (longest_outranks (within_shift_iff.mp hother) hpos)
  refine ⟨within_shift_iff.mpr (shared_longest s.chars t.chars), ?_, ?_⟩
  · intro other hother
    rcases Nat.eq_zero_or_pos other.size with hzero | hpos
    · omega
    · exact (houtranks other hother hpos).size_le
  · intro hpos other hother hsize
    exact (houtranks other hother (by omega)).not_startsBefore hsize

end Windows

end Block

end Respell.Likeness
