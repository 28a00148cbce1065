import EscapeRoom.Command.Session
import EscapeRoom.Level.FormatHeader
import EscapeRoom.Level.Read
import EscapeRoom.Level.Texts
import EscapeRoom.Text.Replace

/-!
# The level compiler

The command reads and compiles a level and writes its blob, the sources that embed it, the header of
ids, and a map of symbols and a summary for inspection. All that is wrong is told together, and then
nothing is written.
-/

namespace EscapeRoom.LevelCompiler

def usage : Usage :=
  { program := "levelc.py"
    argument := some ⟨"input", true⟩
    options := [
      { names := ["-o", "--output"] },
      { names := ["--out-assets"] },
      { names := ["--out-src"] },
      { names := ["--out-include"] },
      { names := ["--out-debug"] },
      { names := ["--ids"] },
      { names := ["--json"] },
      { names := ["--sym"] },
      { names := ["--blob-c"] },
      { names := ["--blob-h"] },
      { names := ["--blob-name"] },
      { names := ["--format-h"] }] }

/-- What compiling a level file gives: the issues found, and the compiled level or what broke it off. -/
def compileFile (tree : FileTree) (input : String) :
    Except Level.Breakdown (Option Level.Compiled) × List Level.Issue :=
  match (Level.load ⟨input, tree.isFile, tree.linewiseText⟩).run .collecting with
  | (.error (.broken b), log) => (.error b, log)
  | (.error (.issue _), log) => (.ok none, log)
  | (.ok none, log) => (.ok none, log)
  | (.ok (some level), log) =>
    match (Level.compile level).run .collecting with
    | (.error (.broken b), more) => (.error b, log ++ more)
    | (.error (.issue _), more) => (.ok none, log ++ more)
    | (.ok c, more) => (.ok (some c), log ++ more)

/-- The compiled level of the input, if nothing is wrong with it. -/
def readInput (input : String) : Act Level.Compiled := do
  match compileFile (← Act.tree) input with
  | (.error b, _) => Act.crash (.level b)
  | (.ok (some c), []) => return c
  | (.ok _, log) =>
    let root ← Act.root
    log.forM fun i => Act.complain ((i.diagnostic (some input)).text root)
    Act.exit 1

structure Directories where
  assets : String
  sources : String
  headers : String
  analysis : String

def Directories.of (root : String) (a : Arguments) : Directories :=
  { assets := Path.join root (a.value "--out-assets" "gen/assets/levels")
    sources := Path.join root (a.value "--out-src" "gen/src/levels")
    headers := Path.join root (a.value "--out-include" "gen/include/levels")
    analysis := Path.join root (a.value "--out-debug" "gen/analysis/levels") }

structure Outputs where
  blob : String
  ids : String
  symbols : String
  summary : String
  blobSource : String
  blobHeader : String
  /-- The header with the format of blobs; it is not written if the path is empty. -/
  format : String
  array : String

def Outputs.of (root : String) (a : Arguments) (d : Directories) (name : String) : Outputs :=
  let base := Level.fileBase name
  let given (option usual : String) : String :=
    let path := a.value option ""
    Path.join root (if path.isEmpty then usual else path)
  let format := a.value "--format-h" ""
  let array := a.value "--blob-name" ""
  { blob := given "--output" (Path.join d.assets (base ++ ".bin"))
    ids := given "--ids" (Path.join d.headers (base ++ ".h"))
    symbols := given "--sym" (Path.join d.analysis (base ++ ".sym"))
    summary := given "--json" (Path.join d.analysis (base ++ ".json"))
    blobSource := given "--blob-c" (Path.join d.sources (base ++ ".c"))
    blobHeader := given "--blob-h" (Path.join d.headers (base ++ "-blob.h"))
    format := if format.isEmpty then "" else Path.join root format
    array := if array.isEmpty then Level.symbol base ++ "_blob" else array }

def writeOutput (kind path : String) (content : Content) (note : String) : Act Unit := do
  match ← Act.tryWrite path content with
  | .ok () => Act.print ("Wrote " ++ path ++ note)
  | .error e => Act.fail ("Error writing " ++ kind ++ " " ++ path ++ ": " ++ e.message path)

def writeOutputs (c : Level.Compiled) (o : Outputs) : Act Unit := do
  let embedded := Text.replace (Path.relative (← Act.root) o.blob (Path.directory o.blobSource)) "\\" "/"
  writeOutput "binary file" o.blob (.data c.blob) (" (" ++ toString c.blob.length ++ " bytes)")
  writeOutput "IDs header" o.ids (.ofText (Level.idsHeader c.level)) ""
  writeOutput "JSON file" o.summary (.ofText ((Level.summary c).pretty 2)) ""
  writeOutput "symbol file" o.symbols (.ofText (Level.symbolMap c)) ""
  writeOutput "blob header" o.blobHeader (.ofText (Level.declaration o.array)) ""
  writeOutput "blob C file" o.blobSource
    (.ofText (Level.blobSource (Path.fileName o.blobHeader) embedded o.array)) ""
  if !o.format.isEmpty then
    writeOutput "format header" o.format
      (.ofText ("// Provided by levelc.py\n" ++ Level.formatHeader)) ""

def run (words : List String) : Act Unit := do
  let a ← Act.arguments usage words
  let c ← readInput (a.argument.getD "")
  let root ← Act.root
  let d := Directories.of root a
  [d.assets, d.sources, d.headers, d.analysis].forM Act.makeDirectories
  writeOutputs c (Outputs.of root a d c.level.name)

end EscapeRoom.LevelCompiler
