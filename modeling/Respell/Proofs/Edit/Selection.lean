import Mathlib.Data.List.Pairwise
import Respell.Proofs.Proofreader.Exactness
import Respell.Proofs.Site.Bytes
import Respell.Proofs.Sorting

/-!
# Edits of whatever kind

Edits are tried from the last to the first, so the text in front of those made is still the old
one.
-/

namespace Respell.Edit

open Text

section Choose

variable {text : List Char}

end Choose

section Chosen

variable {lexicon : Lexicon} {text : List Char} {edits : List Edit}

end Chosen

end Respell.Edit
