import Respell.Advisor
import Respell.Candidate
import Respell.Command.FileTree
import Respell.Command.Options
import Respell.Command.Run
import Respell.Confidence
import Respell.Decimal.Positional
import Respell.Decimal.Shortest
import Respell.Edit
import Respell.Lexicon.Basic
import Respell.Lexicon.Draft
import Respell.Lexicon.Standard
import Respell.Likeness.Block
import Respell.Likeness.Score
import Respell.Main
import Respell.Memo
import Respell.Proofreader
import Respell.Proofs.Candidate.Ranking
import Respell.Proofs.Text.Cut
import Respell.Role
import Respell.Settings.Basic
import Respell.Settings.Document
import Respell.Site
import Respell.Sound
import Respell.Text.Blank
import Respell.Text.CasedTable
import Respell.Text.IgnorableTable
import Respell.Text.LowerTable
import Respell.Text.Lowercase
import Respell.Text.Offset
import Respell.Text.Utf8
import Respell.Toml.Document
import Respell.Toml.Moment
import Respell.Toml.Number
import Respell.Toml.Quoted
import Respell.Toml.Reader
import Respell.Toml.Value
import Respell.Proofs.Site.Seam
import Respell.Proofs.Site.Call
import Respell.Proofs.Edit.Weave
import Respell.Proofs.Site.Order
import Respell.Proofs.Edit.Sites
import Respell.Proofs.Proofreader.Memory
import Respell.Proofs.Proofreader.Exactness
import Respell.Proofs.Lexicon.Pools
import Respell.Proofs.Site.Respelling
import Respell.Proofs.Proofreader.Structure
import Respell.Proofs.Lexicon.Registration
import Respell.Proofs.Site.Literal
import Respell.Proofs.Proofreader.Literals
import Respell.Proofs.Site.Statement
import Respell.Proofs.Text.Marks
import Respell.Proofs.Edit.Joined
import Respell.Proofs.Proofreader.Statements
import Respell.Proofs.Command.Check
import Respell.Proofs.Command.FileTree
import Respell.Proofs.Fallible
import Respell.Proofs.Command.Arguments
import Respell.Proofs.Command.Files
import Respell.Proofs.Proofreader.Lookups
import Respell.Proofs.Proofreader.Batch
import Respell.Proofs.Proofreader.Suggestions
import Respell.Proofs.Text.Decoding
import Respell.Proofs.Command.Dialogue
import Respell.Proofs.Site.Bytes
import Respell.Proofs.Sorting
import Respell.Proofs.Edit.Selection
import Respell.Proofs.Lexicon.Verdict
import Respell.Proofs.Site.Runs
import Respell.Proofs.Candidate.Selection
import Respell.Proofs.Likeness.Longest
import Respell.Proofs.Likeness.Matching
import Respell.Proofs.Advisor.Recency
import Respell.Proofs.Text.Slice
import Respell.Proofs.Site.Bytewise
import Respell.Proofs.Site.Placement
import Respell.Proofs.Proofreader.Deferral
import Respell.Proofs.Advisor.Best
import Respell.Proofs.Advisor.Hearing
import Respell.Proofs.Sound.Canonical
import Respell.Proofs.Likeness.Order
import Respell.Proofs.Confidence
