import SchemaNormal.Options
import SchemaNormal.Text.Quoted

/-!
# Events of a run

While a run changes a file it tells, event by event, what it does: each single change, the end of
each pass with its counts, and the end of the run. An event has a level and a line of text.
-/

namespace SchemaNormal

inductive Level where
  | trace
  | debug
  | info
deriving DecidableEq, Repr

def Level.name : Level → String
  | .trace => "TRACE"
  | .debug => "DEBUG"
  | .info => "INFO"

inductive Event where
  | lifting (path : String)
  | droppingDuplicate (path : String)
  | liftingDone (liftable lifted : Nat)
  | insertedZero (path : String)
  | completionDone (completed : Nat)
  | renaming (path old new : String)
  | renamingDone (renamed : Nat)
  | passFinished (pass : Pass) (changes : Nat)
  | runFinished (changes : Nat)
deriving DecidableEq, Repr

namespace Event

def level : Event → Level
  | .lifting _ | .droppingDuplicate _ | .insertedZero _ | .renaming _ _ _ => .trace
  | .liftingDone _ _ | .completionDone _ | .renamingDone _ | .passFinished _ _ => .debug
  | .runFinished _ => .info

/-- The part of the program that an event comes from. -/
def origin : Event → String
  | .lifting _ | .droppingDuplicate _ | .liftingDone _ _ =>
      "proto_rewrite_core::passes::p0_lift_messages"
  | .insertedZero _ | .completionDone _ => "proto_rewrite_core::passes::p1_complete_zero"
  | .renaming _ _ _ | .renamingDone _ => "proto_rewrite_core::passes::p2_digit_prefix"
  | .passFinished _ _ => "proto_rewrite_core"
  | .runFinished _ => "proto_rewrite"

/-- What happened, with its values. The path of an enum is quoted. -/
def text : Event → String
  | .lifting path => "lifting nested message path=" ++ path
  | .droppingDuplicate path => "dropping duplicate nested message path=" ++ path
  | .liftingDone liftable lifted =>
      s!"message lifting complete liftable={liftable} lifted={lifted}"
  | .insertedZero path => "inserted zero value path=" ++ Text.quoted path
  | .completionDone completed => s!"zero-value completion complete completed={completed}"
  | .renaming path old new =>
      "renaming enum value path=" ++ Text.quoted path ++ " from=" ++ old ++ " to=" ++ new
  | .renamingDone renamed => s!"digit prefixing complete renamed={renamed}"
  | .passFinished pass changes =>
      "pass finished pass=" ++ pass.name ++ s!" rewrites={changes}"
  | .runFinished changes => s!"rewrite finished rewrites={changes}"

/-- The event as a line of a log. -/
def line (event : Event) : String :=
  event.level.name ++ " " ++ event.origin ++ ": " ++ event.text

end Event

end SchemaNormal
