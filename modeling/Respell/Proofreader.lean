import Respell.Advisor
import Respell.Edit
import Respell.Settings.Basic

/-! # Correcting texts -/

namespace Respell

structure Proofreader where
  settings : Settings
  advisor : Advisor

namespace Proofreader

/-- A proofreader over a given lexicon. The settings are taken as they are. -/
def withLexicon (lexicon : Lexicon) (settings : Settings) (environment : Option String) :
    Proofreader :=
  let capacity := settings.capacity environment
  { settings, advisor := .fresh lexicon settings.thresholds capacity.1 capacity.2 }

/-- A proofreader over the lexicon that follows from its settings, once they are checked. -/
def ofSettings (settings : Settings) (environment : Option String) :
    Except Settings.Error Proofreader := do
  settings.check
  let lexicon ← settings.lexicon
  return withLexicon lexicon settings environment

def standard (environment : Option String) : Proofreader :=
  withLexicon Lexicon.standard {} environment

def lexicon (proofreader : Proofreader) : Lexicon := proofreader.advisor.lexicon

/-- The best words for a misspelt one. An exempt word needs none, and is not even looked up. -/
def candidates (proofreader : Proofreader) (query : Query) : List Candidate × Proofreader :=
  if proofreader.lexicon.exempts query.word then ([], proofreader)
  else
    let (candidates, advisor) := proofreader.advisor.consult query
    (candidates, { proofreader with advisor })

/-- The very best word for a misspelt one. -/
def suggest (proofreader : Proofreader) (word : String) (role : Role) :
    Option String × Proofreader :=
  let (candidates, proofreader) :=
    proofreader.candidates ⟨word, role, proofreader.settings.maxSuggestions⟩
  (candidates.head?.map (·.word), proofreader)

/-- The edits for some sites, in order, where there is a suggestion. -/
def editsFor (proofreader : Proofreader) : List Site → List Edit × Proofreader
  | [] => ([], proofreader)
  | site :: sites =>
      let (suggestion, proofreader) := proofreader.suggest site.word site.role
      let (edits, proofreader) := proofreader.editsFor sites
      ((suggestion.map (Edit.mk site)).toList ++ edits, proofreader)

/-- The first word of what stands before the first parenthesis of a text. -/
def firstWord (text : List Char) : List Char :=
  let head := text.takeWhile (· != '(')
  (Text.dropBlanks head).takeWhile fun c => !Text.isBlank c

/-- Texts that address the console: by a marker, or by a reserved name in front. -/
def defers (proofreader : Proofreader) (text : String) : Bool :=
  let trimmed := Text.trim text.toList
  proofreader.settings.isMeta trimmed ||
    (firstWord trimmed != [] && proofreader.lexicon.isReserved (String.ofList (firstWord trimmed)))

/-- Corrects the calls in a text, unless it addresses the console. -/
def revise (proofreader : Proofreader) (text : String) : Revision × Proofreader :=
  if proofreader.defers text then ({ text }, proofreader)
  else
    let (edits, proofreader) := proofreader.editsFor (Site.scan text)
    (Edit.applyAll proofreader.lexicon text edits, proofreader)

/-- Revises texts one after the other. -/
def reviseAll (proofreader : Proofreader) : List String → List Revision × Proofreader
  | [] => ([], proofreader)
  | text :: texts =>
      let (revision, proofreader) := proofreader.revise text
      let (revisions, proofreader) := proofreader.reviseAll texts
      (revision :: revisions, proofreader)

def clear (proofreader : Proofreader) : Proofreader :=
  { proofreader with advisor := proofreader.advisor.clear }

def stats (proofreader : Proofreader) : Memo.Stats := proofreader.advisor.stats

end Proofreader

end Respell
