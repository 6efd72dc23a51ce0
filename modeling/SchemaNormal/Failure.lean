/-!
# Failures

The passes always succeed. What can fail is reading a text, resolving the name of a pass, and
accepting options. Each failure has a message for people and a stable code for programs.
-/

namespace SchemaNormal

/-- The stable codes of failures. -/
inductive FailureCode where
  | unreadable
  | unknownPass
  | invalidOption
deriving DecidableEq, Repr, Inhabited

def FailureCode.name : FailureCode → String
  | .unreadable => "json_parse_error"
  | .unknownPass => "unknown_pass"
  | .invalidOption => "invalid_option"

def FailureCode.all : List FailureCode :=
  [.unreadable, .unknownPass, .invalidOption]

inductive Failure where
  /-- A text is no JSON, or not of the form asked for; `message` is the reader's. -/
  | unreadable (message : String)
  | unknownPass (name : String)
  | invalidOption (option reason : String)
deriving DecidableEq, Repr

namespace Failure

def code : Failure → FailureCode
  | .unreadable _ => .unreadable
  | .unknownPass _ => .unknownPass
  | .invalidOption _ _ => .invalidOption

/-- The message shown to people. Values are inserted as they are. -/
def message : Failure → String
  | .unreadable message => "JSON (de)serialization error: " ++ message
  | .unknownPass name =>
      "Unknown pass '" ++ name
        ++ "' (expected one of: lift-messages, complete-zero, prefix-digits)"
  | .invalidOption option reason => "Invalid option " ++ option ++ ": " ++ reason

end Failure

end SchemaNormal
