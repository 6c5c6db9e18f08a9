import Respell.Role

namespace Respell.Command

structure Options where
  input : Option String := none
  output : Option String := none
  config : Option String := none
  check : Bool := false
  suggest : Option String := none
  role : Role := .general
  interactive : Bool := false
  deriving Repr, DecidableEq

inductive Request where
  | help
  | version
  | work (options : Options)
  deriving Repr, DecidableEq

/-- Mistakes in the arguments. -/
inductive UsageError where
  | missingValue (option : String)
  | unknownRole (name : String)
  | unknownOption (name : String)
  | secondInput
  deriving Repr, DecidableEq

def UsageError.message : UsageError → String
  | missingValue option => "Missing value after " ++ option
  | unknownRole name => "Unknown context: " ++ name
  | unknownOption name => "Unknown option: " ++ name
  | secondInput => "Multiple input files specified"

/-- What an argument means on its own. -/
inductive Token where
  | help
  | version
  | output
  | config
  | suggest
  | role
  | check
  | interactive
  | logging
  | unknown
  | input
  deriving Repr, DecidableEq

def Token.of : String → Token
  | "-h" | "--help" => help
  | "-v" | "--version" => version
  | "-o" | "--output" => output
  | "-c" | "--config" => config
  | "--suggest" => suggest
  | "--context" => role
  | "--check" => check
  | "--interactive" => interactive
  | "-q" | "--quiet" | "--verbose" => logging
  | argument => if argument.toList.head? = some '-' ∧ argument ≠ "-" then unknown else input

/-- Reads the arguments that are left, on top of the options so far. -/
def readArguments : List String → Options → Except UsageError Request
  | [], options => .ok (.work options)
  | argument :: rest, options =>
      match Token.of argument, rest with
      | .help, _ => .ok .help
      | .version, _ => .ok .version
      | .output, value :: rest => readArguments rest { options with output := some value }
      | .output, [] => .error (.missingValue "-o")
      | .config, value :: rest => readArguments rest { options with config := some value }
      | .config, [] => .error (.missingValue "-c")
      | .suggest, value :: rest => readArguments rest { options with suggest := some value }
      | .suggest, [] => .error (.missingValue "--suggest")
      | .role, value :: rest =>
          match Role.ofName? value with
          | some role => readArguments rest { options with role }
          | none => .error (.unknownRole value)
      | .role, [] => .error (.missingValue "--context")
      | .check, rest => readArguments rest { options with check := true }
      | .interactive, rest => readArguments rest { options with interactive := true }
      | .logging, rest => readArguments rest options
      | .unknown, _ => .error (.unknownOption argument)
      | .input, rest =>
          if options.input.isSome then .error .secondInput
          else readArguments rest { options with input := some argument }

end Respell.Command
