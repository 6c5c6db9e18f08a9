import Respell.Candidate
import Respell.Memo

/-! # Advice with a memory -/

namespace Respell

structure Advisor where
  lexicon : Lexicon
  thresholds : Thresholds
  memo : Memo Query (List Candidate)

namespace Advisor

/-- An advisor that has answered nothing yet. -/
def fresh (lexicon : Lexicon) (thresholds : Thresholds) (capacity : Nat)
    (positive : 0 < capacity) : Advisor :=
  { lexicon, thresholds, memo := { capacity, capacity_pos := positive } }

/-- The candidates for a query, and the advisor that remembers them. -/
def consult (advisor : Advisor) (query : Query) : List Candidate × Advisor :=
  if query.word = "" ∨ query.limit = 0 then ([], advisor)
  else
    let answer := Candidate.rank advisor.thresholds advisor.lexicon
    let (candidates, memo) := advisor.memo.ask answer query
    (candidates, { advisor with memo })

def clear (advisor : Advisor) : Advisor := { advisor with memo := advisor.memo.clear }

def stats (advisor : Advisor) : Memo.Stats := advisor.memo.stats

end Advisor

end Respell
