import Respell.Command.FileTree
import Respell.Command.Options
import Respell.Proofreader
import Respell.Settings.Document
import Respell.Text.Utf8

/-! # Running the command -/

namespace Respell.Command

/-- All that a run depends on. -/
structure Session where
  arguments : List String
  input : List UInt8 := []
  files : FileTree := {}
  /-- The settings file that is used if the arguments name none, provided that it exists. -/
  userConfig : Option String := none
  /-- How many answers to remember, as the environment has it. -/
  cacheSize : Option String := none
  deriving Repr, DecidableEq

/-- All that a run brings about. -/
structure Outcome where
  code : Nat
  output : String := ""
  report : String := ""
  files : FileTree
  deriving Repr, DecidableEq

def usage : String :=
  String.intercalate "\n"
    [ "typofix v0.2.0",
      "",
      "USAGE:",
      "    typofix [OPTIONS] <INPUT>",
      "    typofix [OPTIONS] --suggest <WORD>",
      "    typofix [OPTIONS] --interactive",
      "",
      "OPTIONS:",
      "    -h, --help             Print this help message",
      "    -v, --version          Print version information",
      "    -o, --output <FILE>    Write corrected text to FILE (default: stdout)",
      "    -c, --config <FILE>    Read settings from FILE (default: user typofix.toml)",
      "    --check                Report fixes only; exit with 1 if any are found",
      "    --suggest <WORD>       Print ranked suggestions for WORD",
      "    --context <KIND>       Context for --suggest: method, function, keyword, general",
      "    --interactive          Correct stdin line by line",
      "    -q, --quiet            Only log errors",
      "    --verbose              Log every applied fix",
      "",
      "ARGUMENTS:",
      "    <INPUT>                Source file to correct (use '-' for stdin)",
      "",
      "EXAMPLES:",
      "    typofix script.cds",
      "    typofix --check script.cds",
      "    typofix --suggest pus --context method",
      "    echo 'likh(\"hi\")' | typofix -",
      "" ]

def version : String := "typofix 0.2.0\n"

/-- Why a run fails after its arguments were understood. -/
inductive Failure where
  | config (path : String) (fault : FileFault)
  | settings (error : Settings.Error)
  | noInput
  | inputNotFound (path : String)
  | input (path : String) (fault : FileFault)
  | standardInput (fault : FileFault)
  | output (path : String) (fault : FileFault)

def Failure.message : Failure → String
  | config path fault => "Failed to read config '" ++ path ++ "': " ++ fault.message
  | settings error => error.message
  | noInput => "Missing input file"
  | inputNotFound path => "Input file not found: " ++ path
  | input path fault => "Failed to read file '" ++ path ++ "': " ++ fault.message
  | standardInput fault => "Failed to read from stdin: " ++ fault.message
  | output path fault => "Failed to create output file '" ++ path ++ "': " ++ fault.message

def Failure.report (failure : Failure) : String := "Error: " ++ failure.message ++ "\n"

/-- Bytes as text, if they can be read as such. -/
def decodeText (bytes : List UInt8) : Except FileFault String :=
  match Text.gapless? (Text.decode bytes) with
  | some cs => .ok (String.ofList cs)
  | none => .error .undecodable

def readText (files : FileTree) (path : String) : Except FileFault String := do
  decodeText (← files.read path)

/-- The settings file to be read, if any. -/
def configFile? (session : Session) (options : Options) : Option String :=
  options.config.or (session.userConfig.filter session.files.reaches)

/-- The settings in force: from a file, or else the standard ones. -/
def loadSettings (session : Session) (options : Options) : Except Failure Settings :=
  match configFile? session options with
  | none => .ok {}
  | some path => do
      let text ← (readText session.files path).mapError (.config path)
      (Settings.ofToml text).mapError .settings

def loadProofreader (session : Session) (options : Options) : Except Failure Proofreader := do
  let settings ← loadSettings session options
  (Proofreader.ofSettings settings session.cacheSize).mapError .settings

/-- The text to be corrected. -/
def readInput (session : Session) : Option String → Except Failure String
  | none => .error .noInput
  | some "-" => (decodeText session.input).mapError .standardInput
  | some path =>
      if session.files.reaches path then (readText session.files path).mapError (.input path)
      else .error (.inputNotFound path)

def changeLine (change : Change) : String :=
  change.word ++ " -> " ++ change.suggestion ++ " (" ++ change.role.name ++ ")\n"

/-- The changes of a revision, each on a line. -/
def changeLines (revision : Revision) : String :=
  String.join (revision.changes.map changeLine)

def padRight (width : Nat) (text : String) : String :=
  text ++ String.ofList (List.replicate (width - text.toList.length) ' ')

def padLeft (width : Nat) (text : String) : String :=
  String.ofList (List.replicate (width - text.toList.length) ' ') ++ text

/-- A candidate with its confidence and evidence, in columns. -/
def candidateLine (candidate : Candidate) : String :=
  padRight 24 candidate.word ++ " " ++ padLeft 3 (toString candidate.confidence) ++ "% " ++
    candidate.evidence.label ++ "\n"

def suggestions (proofreader : Proofreader) (word : String) (role : Role) : String :=
  match (proofreader.candidates ⟨word, role, proofreader.settings.maxSuggestions⟩).1 with
  | [] => "No suggestions for '" ++ word ++ "'\n"
  | candidates => String.join (candidates.map candidateLine)

/-- The lines of an input without their line ends: a line feed, and one carriage return before
it. -/
def lines : List (Option Char) → List (List (Option Char))
  | [] => []
  | some '\n' :: cs => [] :: lines cs
  | some '\r' :: some '\n' :: cs => [] :: lines cs
  | c :: cs =>
      match lines cs with
      | [] => [[c]]
      | line :: rest => (c :: line) :: rest

/-- What a dialogue prints, and whether it broke off at a line that is no text. -/
structure Dialogue where
  output : String := ""
  report : String := ""
  broken : Bool := false
  deriving Repr, DecidableEq

/-- Revises lines one after the other. -/
def converse (proofreader : Proofreader) : List (List (Option Char)) → Dialogue
  | [] => {}
  | line :: rest =>
      match Text.gapless? line with
      | none => { broken := true }
      | some cs =>
          let (revision, proofreader) := proofreader.revise (String.ofList cs)
          let dialogue := converse proofreader rest
          { dialogue with
            output := revision.text ++ "\n" ++ dialogue.output
            report := changeLines revision ++ dialogue.report }

def interact (proofreader : Proofreader) (session : Session) : Outcome :=
  let dialogue := converse proofreader (lines (Text.decode session.input))
  let files := session.files
  if dialogue.broken then
    { code := 1, output := dialogue.output, files,
      report := dialogue.report ++ (Failure.standardInput .undecodable).report }
  else { code := 0, output := dialogue.output, report := dialogue.report, files }

/-- Prints the revised text or writes it to a file; the changes are reported in any case. -/
def deliver (session : Session) (output : Option String) (revision : Revision) : Outcome :=
  let report := changeLines revision
  match output with
  | none => { code := 0, output := revision.text, report, files := session.files }
  | some path =>
      match session.files.write path (Text.encode revision.text.toList) with
      | .ok files => { code := 0, report, files }
      | .error fault =>
          { code := 1, report := report ++ (Failure.output path fault).report,
            files := session.files }

/-- Corrects one text, or only checks it. -/
def correct (proofreader : Proofreader) (session : Session) (options : Options) : Outcome :=
  match readInput session options.input with
  | .error failure => { code := 1, report := failure.report, files := session.files }
  | .ok text =>
      let revision := (proofreader.revise text).1
      if options.check then
        { code := if revision.isChanged then 1 else 0, output := changeLines revision,
          files := session.files }
      else deliver session options.output revision

def work (session : Session) (options : Options) : Outcome :=
  match loadProofreader session options with
  | .error failure => { code := 1, report := failure.report, files := session.files }
  | .ok proofreader =>
      match options.suggest with
      | some word =>
          { code := 0, output := suggestions proofreader word options.role, files := session.files }
      | none =>
          if options.interactive then interact proofreader session
          else correct proofreader session options

def run (session : Session) : Outcome :=
  match readArguments session.arguments {} with
  | .error mistake =>
      { code := 1, report := "Error: " ++ mistake.message ++ "\n\n" ++ usage,
        files := session.files }
  | .ok .help => { code := 0, report := usage, files := session.files }
  | .ok .version => { code := 0, output := version, files := session.files }
  | .ok (.work options) => work session options

end Respell.Command
