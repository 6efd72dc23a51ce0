import SchemaNormal.Json.Writer
import SchemaNormal.Options
import SchemaNormal.Text.Terminal

/-!
# Requests of a command line

What a user can ask for, and what can be wrong with the words in which it is asked.
-/

namespace SchemaNormal.Cli

/-- An option that takes a value. -/
inductive Setting where
  | output
  | report
  | config
  | pass
  | zeroName
  | digitPrefix
  | format
deriving DecidableEq, Repr

namespace Setting

def all : List Setting :=
  [output, report, config, pass, zeroName, digitPrefix, format]

/-- The name after two dashes. -/
def name : Setting → String
  | output => "output"
  | report => "report"
  | config => "config"
  | pass => "pass"
  | zeroName => "zero-name"
  | digitPrefix => "digit-prefix"
  | format => "format"

/-- The letter after one dash. -/
def letter? : Setting → Option Char
  | output => some 'o'
  | _ => none

/-- What stands for the value in messages. -/
def valueName : Setting → String
  | output => "OUTPUT"
  | report => "REPORT"
  | config => "CONFIG"
  | pass => "PASSES"
  | zeroName => "ZERO_NAME"
  | digitPrefix => "DIGIT_PREFIX"
  | format => "FORMAT"

/-- The option as messages show it. -/
def shown (s : Setting) : String :=
  "--" ++ s.name ++ " <" ++ s.valueName ++ ">"

end Setting

inductive Flag where
  | verbose
  | help
  | version
deriving DecidableEq, Repr

namespace Flag

def name : Flag → String
  | verbose => "verbose"
  | help => "help"
  | version => "version"

def letter : Flag → Char
  | verbose => 'v'
  | help => 'h'
  | version => 'V'

def shown (f : Flag) : String :=
  "--" ++ f.name

end Flag

/-- The normalisation of one input file. -/
structure Job where
  input : String
  output : Option String := none
  report : Option String := none
  config : Option String := none
  /-- The passes asked for; none means that the options decide. -/
  passes : List Pass := []
  zeroName : Option String := none
  digitPrefix : Option String := none
  layout : Json.Layout := .pretty
deriving DecidableEq, Repr

inductive Command where
  | normalize (job : Job)
  | listPasses
deriving DecidableEq, Repr

inductive Page where
  | program
  | normalize
  | listPasses
  | help
deriving DecidableEq, Repr

inductive Request where
  | run (verbose : Bool) (command : Command)
  | help (page : Page)
  | version
deriving DecidableEq, Repr

inductive UsageError where
  | noArguments
  | missingCommand
  | unknownCommand (name : String)
  | unexpected (argument : String)
  | missingInput
  | missingValue (shown : String)
  | repeated (shown : String)
  | unneededValue (value shown : String)
  | unknownFormat (value : String)
  | unknownPass (value : String)
deriving DecidableEq, Repr

namespace UsageError

/-- Words of the user, as a message sets them off. -/
def quote (words : String) : String :=
  "'\x1b[33m" ++ words ++ "\x1b[0m'"

/-- Words to type, as a message sets them off. -/
def literal (words : String) : String :=
  "'\x1b[1m" ++ words ++ "\x1b[0m'"

def message : UsageError → String
  | noArguments => "Normalize protocol buffer schema ASTs for code generation"
  | missingCommand =>
      "error: " ++ literal "proto-rewrite" ++ " requires a subcommand but one was not provided"
  | unknownCommand name => "error: unrecognized subcommand " ++ quote name
  | unexpected argument => "error: unexpected argument " ++ quote argument ++ " found"
  | missingInput => "error: the following required arguments were not provided:"
  | missingValue shown =>
      "error: a value is required for " ++ literal shown ++ " but none was supplied"
  | repeated shown =>
      "error: the argument " ++ quote shown ++ " cannot be used multiple times"
  | unneededValue value shown =>
      "error: unexpected value " ++ quote value ++ " for " ++ literal shown
        ++ " found; no more were expected"
  | unknownFormat value =>
      "error: invalid value " ++ quote value ++ " for " ++ literal Setting.format.shown
  | unknownPass value =>
      "error: invalid value " ++ quote value ++ " for " ++ literal Setting.pass.shown ++ ": "
        ++ (Failure.unknownPass value).message

def advice : String :=
  "\n\nFor more information, try " ++ literal "--help" ++ ".\n"

def line (e : UsageError) : String :=
  Text.firstLine (Text.visible (e.message ++ advice))

end UsageError

end SchemaNormal.Cli
