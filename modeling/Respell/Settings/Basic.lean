import Respell.Candidate
import Respell.Decimal.Positional
import Respell.Lexicon.Standard

namespace Respell

/-- Words to be added to the standard lexicon. -/
structure ExtraWords where
  keywords : List String := []
  builtins : List String := []
  arrayMethods : List String := []
  stringMethods : List String := []
  objectMethods : List String := []
  deriving Repr, DecidableEq

def ExtraWords.isEmpty (extra : ExtraWords) : Bool :=
  extra.keywords.isEmpty && extra.builtins.isEmpty && extra.arrayMethods.isEmpty &&
    extra.stringMethods.isEmpty && extra.objectMethods.isEmpty

structure Settings where
  maxSuggestions : Nat := 3
  thresholds : Thresholds := {}
  /-- How many answers to remember. -/
  cacheCapacity? : Option Nat := none
  /-- Texts that begin with one of these characters are commands to the console. -/
  metaMarkers : List Char := ['!', '.']
  reserved? : Option (List String) := none
  extra : ExtraWords := {}

namespace Settings

/-- A value that is out of bounds. -/
inductive Fault where
  | noSuggestions
  | cutoffOutside (cutoff : Float)
  | confidenceAbove (minConfidence : Nat)
  | noCache

namespace Fault

/-- The name of the setting with the value. -/
def field : Fault → String
  | noSuggestions => "max_suggestions"
  | cutoffOutside _ => "similarity_cutoff"
  | confidenceAbove _ => "min_confidence"
  | noCache => "cache_capacity"

def reason : Fault → String
  | noSuggestions | noCache => "must be at least 1"
  | cutoffOutside cutoff => Decimal.ofFloat cutoff ++ " is outside 0.0..=1.0"
  | confidenceAbove minConfidence => toString minConfidence ++ " is above 100"

end Fault

/-- Why settings cannot be used. -/
inductive Error where
  | malformed
  | invalid (fault : Fault)
  | lexicon (cause : Lexicon.Error)

def Error.message : Error → String
  | malformed => "Invalid config:"
  | invalid fault => "Invalid value for '" ++ fault.field ++ "': " ++ fault.reason
  | lexicon cause => "Invalid vocabulary: " ++ cause.message

/-- Reports the first value that is out of bounds. -/
def check (settings : Settings) : Except Error Unit :=
  let ⟨cutoff, minConfidence⟩ := settings.thresholds
  if settings.maxSuggestions = 0 then .error (.invalid .noSuggestions)
  else if ¬(0.0 ≤ cutoff ∧ cutoff ≤ 1.0) then .error (.invalid (.cutoffOutside cutoff))
  else if 100 < minConfidence then .error (.invalid (.confidenceAbove minConfidence))
  else if settings.cacheCapacity? = some 0 then .error (.invalid .noCache)
  else .ok ()

/-- The largest count that a machine word of 64 bits holds. -/
def largestCount : Nat := 0xFFFFFFFFFFFFFFFF

/-- A count in plain digits, after a plus sign if there is one, that fits a machine word. -/
def readCount? (text : String) : Option Nat :=
  let digits := match text.toList with
    | '+' :: digits => digits
    | digits => digits
  if digits.isEmpty || !digits.all Char.isDigit then none
  else
    let count := digits.foldl (fun count digit => 10 * count + (digit.toNat - '0'.toNat)) 0
    if count ≤ largestCount then some count else none

/-- The first count of some that is present and not zero. -/
def firstPositive (counts : List (Option Nat)) (fallback : { n : Nat // 0 < n }) :
    { n : Nat // 0 < n } :=
  match counts with
  | [] => fallback
  | some (n + 1) :: _ => ⟨n + 1, n.succ_pos⟩
  | _ :: counts => firstPositive counts fallback

/-- How many answers are remembered: as many as the settings say, else as the environment says,
else 1024. -/
def capacity (settings : Settings) (environment : Option String) : { n : Nat // 0 < n } :=
  firstPositive [settings.cacheCapacity?, environment.bind readCount?] ⟨1024, by decide⟩

/-- The text begins with a character that addresses the console. -/
def isMeta (settings : Settings) (text : List Char) : Bool :=
  text.head?.any settings.metaMarkers.contains

/-- The standard words and then the extra ones, with the reserved names that are in force. -/
def draft (settings : Settings) : Lexicon.Draft :=
  let base := match settings.reserved? with
    | none => Lexicon.Draft.standard
    | some names => Lexicon.Draft.standard.clearReserved.addReserved names
  base
    |>.addWords .keyword settings.extra.keywords
    |>.addWords .builtin settings.extra.builtins
    |>.addWords .arrayMethod settings.extra.arrayMethods
    |>.addWords .stringMethod settings.extra.stringMethods
    |>.addWords .objectMethod settings.extra.objectMethods

def lexicon (settings : Settings) : Except Error Lexicon :=
  settings.draft.build.mapError .lexicon

/-- All values are the standard ones. -/
def isStandard (settings : Settings) : Bool :=
  let standard : Settings := {}
  settings.maxSuggestions == standard.maxSuggestions &&
    settings.thresholds.cutoff == standard.thresholds.cutoff &&
    settings.thresholds.minConfidence == standard.thresholds.minConfidence &&
    settings.cacheCapacity? == standard.cacheCapacity? &&
    settings.metaMarkers == standard.metaMarkers &&
    settings.reserved? == standard.reserved? &&
    settings.extra == standard.extra

end Settings

end Respell
