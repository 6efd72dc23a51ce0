import SchemaNormal.Schema.Basic
import SchemaNormal.Schema.Scope

/-!
# Visiting enums

A visitor sees every enum of a file once, together with its path, and answers with the enum to put
in its place. It may carry a state from one enum to the next. The enums of the file come first;
then each message in order, its own enums before the messages inside it. Paths are made of the
names before the visit.
-/

namespace SchemaNormal

/-- What is done at one enum: from the state so far, the enum and its path to the next state and the
enum that takes its place. -/
abbrev EnumVisitor (σ : Type) := σ → Enum → String → σ × Enum

namespace Enum

/-- Visits enums that stand in one scope, in order. -/
def visitAll {σ : Type} (visit : EnumVisitor σ) (scope : String) : List Enum → σ → σ × List Enum
  | [], s => (s, [])
  | e :: es, s =>
      let (s, e') := visit s e (qualify scope e.name)
      let (s, es') := visitAll visit scope es s
      (s, e' :: es')

end Enum

namespace Message

mutual

/-- Visits the enums of a message in `scope`, then those of the messages inside it. -/
def visitEnums {σ : Type} (visit : EnumVisitor σ) (scope : String) : Message → σ → σ × Message
  | ⟨name, fields, messages, enums⟩, s =>
      let (s, enums') := Enum.visitAll visit (qualify scope name) enums s
      let (s, messages') := visitEnumsAll visit (qualify scope name) messages s
      (s, ⟨name, fields, messages', enums'⟩)

/-- Visits the enums of messages that stand in one scope, in order. -/
def visitEnumsAll {σ : Type} (visit : EnumVisitor σ) (scope : String) :
    List Message → σ → σ × List Message
  | [], s => (s, [])
  | m :: ms, s =>
      let (s, m') := visitEnums visit scope m s
      let (s, ms') := visitEnumsAll visit scope ms s
      (s, m' :: ms')

end

end Message

/-- Visits every enum of the file. -/
def File.visitEnums {σ : Type} (visit : EnumVisitor σ) (file : File) (s : σ) : σ × File :=
  let (s, enums) := Enum.visitAll visit "" file.enums s
  let (s, messages) := Message.visitEnumsAll visit "" file.messages s
  (s, { file with messages, enums })

end SchemaNormal
