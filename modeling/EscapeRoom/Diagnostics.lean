import EscapeRoom.Path
import EscapeRoom.Table

/-!
# Diagnostics

A compiler collects its diagnostics and shows them together. A diagnostic without a file belongs to
the file that is compiled.
-/

namespace EscapeRoom

structure Diagnostic where
  file : String
  line : Int
  column : Int
  severity : String := "error"
  message : String
  deriving Repr, DecidableEq

/-- The diagnostic as one line of text, with the absolute path of its file. -/
def Diagnostic.text (d : Diagnostic) (cwd : String) : String :=
  Path.absolute cwd d.file ++ ":" ++ toString d.line ++ ":" ++ toString d.column ++ ": " ++
    d.severity ++ ": " ++ d.message

structure Diagnostics where
  defaultFile : Option String := none
  entries : List Diagnostic := []
  deriving Repr, DecidableEq

namespace Diagnostics

/-- The file named, or else the file that is compiled. An empty name counts as none. -/
def fileFor (defaultFile file : Option String) : String :=
  match file.filter (! String.isEmpty ·), defaultFile.filter (! String.isEmpty ·) with
  | some f, _ => f
  | none, some f => f
  | none, none => "<unknown>"

def entry (d : Diagnostics) (message : String) (file : Option String) (line column : Option Int)
    (severity : String) : Diagnostic :=
  { file := fileFor d.defaultFile file
    line := line.getD 1
    column := column.getD 1
    severity
    message }

def add (d : Diagnostics) (e : Diagnostic) : Diagnostics :=
  { d with entries := d.entries ++ [e] }

def text (d : Diagnostics) (cwd : String) : String :=
  String.join (d.entries.map fun e => e.text cwd ++ "\n")

end Diagnostics

end EscapeRoom
