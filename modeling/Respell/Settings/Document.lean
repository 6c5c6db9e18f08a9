import Respell.Settings.Basic
import Respell.Toml.Document

/-! # Settings from a TOML document -/

namespace Respell

namespace Toml.Value

def string? : Value → Option String
  | string text => some text
  | _ => none

/-- A number that counts something, up to `most`. -/
def count? (most : Nat) : Value → Option Nat
  | integer (.ofNat n) => if n ≤ most then some n else none
  | _ => none

def float? : Value → Option Float
  | float number => some number
  | integer number => some (.ofInt number)
  | _ => none

def items? : Value → Option (List Value)
  | array items => some items
  | series tables => some (tables.map (table .headed))
  | _ => none

def strings? (value : Value) : Option (List String) := do
  (← value.items?).mapM string?

/-- A string that consists of one character. -/
def char? (value : Value) : Option Char := do
  match (← value.string?).toList with
  | [c] => some c
  | _ => none

def chars? (value : Value) : Option (List Char) := do
  (← value.items?).mapM char?

end Toml.Value

namespace ExtraWords

/-- Takes over one entry of a table of extra words. -/
def put (extra : ExtraWords) (name : String) (value : Toml.Value) : Option ExtraWords := do
  let words ← value.strings?
  match name with
  | "keywords" => some { extra with keywords := words }
  | "builtins" => some { extra with builtins := words }
  | "array_methods" => some { extra with arrayMethods := words }
  | "string_methods" => some { extra with stringMethods := words }
  | "object_methods" => some { extra with objectMethods := words }
  | _ => none

/-- The names of the lists of words, in the order in which an array gives them. -/
def names : List String :=
  ["keywords", "builtins", "array_methods", "string_methods", "object_methods"]

/-- Extra words are a table of lists, or an array of lists in a fixed order in which the last ones
may be missing and further items mean nothing. -/
def ofValue? : Toml.Value → Option ExtraWords
  | .table _ entries => entries.foldlM (fun extra entry => extra.put entry.1 entry.2) {}
  | value => do
      let items ← value.items?
      (names.zip items).foldlM (fun extra entry => extra.put entry.1 entry.2) {}

end ExtraWords

namespace Settings

/-- Takes over one entry of a document. -/
def put (settings : Settings) (name : String) (value : Toml.Value) : Option Settings :=
  match name with
  | "max_suggestions" => do
      let count ← value.count? largestCount
      return { settings with maxSuggestions := count }
  | "similarity_cutoff" => do
      let cutoff ← value.float?
      return { settings with thresholds := { settings.thresholds with cutoff } }
  | "min_confidence" => do
      let minConfidence ← value.count? 255
      return { settings with thresholds := { settings.thresholds with minConfidence } }
  | "cache_capacity" => do
      let count ← value.count? largestCount
      return { settings with cacheCapacity? := some count }
  | "meta_markers" => do
      let metaMarkers ← value.chars?
      return { settings with metaMarkers }
  | "reserved_commands" => do
      let names ← value.strings?
      return { settings with reserved? := some names }
  | "vocabulary" => do
      let extra ← ExtraWords.ofValue? value
      return { settings with extra }
  | _ => none

/-- The settings in a document, checked. -/
def ofToml (text : String) : Except Error Settings := do
  let settings? : Option Settings := do
    let entries ← Toml.parse? text
    entries.foldlM (fun (settings : Settings) entry => settings.put entry.1 entry.2) {}
  match settings? with
  | none => .error .malformed
  | some settings =>
      settings.check
      return settings

end Settings

end Respell
