import EscapeRoom.Fields
import EscapeRoom.Text.Lines

/-!
# Source lines

A source file is read line by line. A comment runs from a semicolon to the end of its line, and lines
with nothing else on them do not count.
-/

namespace EscapeRoom

/-- A line with something on it: its number, its text without comment, and that text trimmed. -/
structure Line where
  number : Nat
  raw : String
  text : String
  deriving Repr, DecidableEq

def sourceLines (text : String) : List Line :=
  ((Text.lines text).zipIdx 1).filterMap fun (line, number) =>
    let raw := Fields.stripComment line
    let text := Text.trim raw
    if text.isEmpty then none else some ⟨number, raw, text⟩

end EscapeRoom
