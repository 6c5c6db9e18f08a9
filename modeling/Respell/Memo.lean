/-! # Bounded memory of past answers -/

namespace Respell

structure Memo (κ ν : Type) where
  capacity : Nat
  capacity_pos : 0 < capacity
  /-- Questions and answers, the most recent first. -/
  entries : List (κ × ν) := []
  hits : Nat := 0
  misses : Nat := 0

namespace Memo

variable {κ ν : Type} [DecidableEq κ]

/-- What can be told about a memo from outside. -/
structure Stats where
  hits : Nat
  misses : Nat
  entries : Nat
  capacity : Nat
  deriving Repr, DecidableEq

def stats (memo : Memo κ ν) : Stats :=
  ⟨memo.hits, memo.misses, memo.entries.length, memo.capacity⟩

def find? (memo : Memo κ ν) (key : κ) : Option ν :=
  (memo.entries.find? fun entry => entry.1 = key).map (·.2)

/-- Answers with one put in front of them, in place of any to the same question. -/
def inFront (key : κ) (value : ν) (entries : List (κ × ν)) : List (κ × ν) :=
  (key, value) :: entries.filter fun entry => entry.1 ≠ key

/-- Looks a question up. One that the memo holds becomes the most recent. -/
def look (memo : Memo κ ν) (key : κ) : Option ν × Memo κ ν :=
  match memo.find? key with
  | some value =>
      (some value, { memo with
        entries := inFront key value memo.entries
        hits := memo.hits + 1 })
  | none => (none, { memo with misses := memo.misses + 1 })

/-- Keeps an answer. The least recent one goes if there is no room for it. -/
def put (memo : Memo κ ν) (key : κ) (value : ν) : Memo κ ν :=
  { memo with entries := (inFront key value memo.entries).take memo.capacity }

/-- The answer to a question, from memory or else by `answer`. -/
def ask (memo : Memo κ ν) (answer : κ → ν) (key : κ) : ν × Memo κ ν :=
  match memo.look key with
  | (some value, memo) => (value, memo)
  | (none, memo) =>
      let value := answer key
      (value, memo.put key value)

/-- Forgets all answers and both counts. -/
def clear (memo : Memo κ ν) : Memo κ ν :=
  { memo with entries := [], hits := 0, misses := 0 }

end Memo

end Respell
