import EscapeRoom.Assets.Update
import EscapeRoom.Command.SourceLister
import EscapeRoom.Sample.Faulty
import EscapeRoom.Sample.Tileset
import EscapeRoom.Workload.Basic

/-!
# The workload on project tasks

Listing the sources of a project, putting them into its build file, and telling the outputs of its levels
and tilesets. The sample levels and the sample tileset begin with comments, so that their names have to
be looked for.
-/

namespace EscapeRoom.Workload

def leadingComments : List String :=
  (List.range 80).map fun j => "; comment " ++ toString j

def taskLevelName (i : Nat) : String :=
  "levels/lv" ++ Number.decimalZeros 3 i ++ ".lvl"

def taskLevel (i : Nat) : String :=
  Sample.linesText (leadingComments ++
    ["LEVEL name=\"Level " ++ toString i ++ "\" w=4 h=4 start=R0:S0"])

def oldBuildFile : String :=
  Sample.linesText ["build $target | $dbg_out : cc old.c"]

def putTaskProject (levels : Nat) : Act Unit := do
  putTexts [
    ("levels/t0.tset", Sample.linesText leadingComments ++
      Sample.tilesetText 8 { name := "t", charset := "../chars.bin" }),
    ("tools/tilesetc.py", Sample.linesText ["# dummy"]),
    ("tools/levelc.py", Sample.linesText ["# dummy"]),
    ("build/build.ninja", oldBuildFile),
    ("cfg.json", "\x7b\"sources\": [\"src/\", \"src/*.c\", \"src/f000.c\", \"missing.c\"]\x7d"),
    ("badcfg.json", "\x7b\"sources\": 1\x7d")]
  put "chars.bin" (emptyCharset 64)
  putTexts ((List.range 4).map fun (i : Nat) =>
    ("src/f" ++ Number.decimalZeros 3 i ++ ".c", Sample.linesText ["// c"]))
  putTexts ((List.range levels).map fun i => (taskLevelName i, taskLevel i))

def namelessFiles : List (String × String) :=
  [("noname.lvl", Sample.linesText ["LEVEL w=4 h=4"]),
    ("nots.tset", Sample.linesText ["; no TSET here"]),
    ("junk.json", "\x7bnot json"),
    ("emptylvl/x.tset", Sample.afterHeader [])]

/-- The figures are the number of levels, the lengths of their names, the number of their outputs, and
the number of levels without outputs. -/
def projectTasks (levels : Nat) : Workload where
  prepare := putTaskProject levels
  run := do
    let root := Path.join (← Act.root) directory
    SourceLister.run ["--config", ← place "cfg.json", "--out", ← place "cfg.out.json"]
    if levels = 0 then Act.crash .noLevels
    SourceLister.patchBuildFile root ["src/f000.c"]
    putTexts namelessFiles
    let tree ← Act.tree
    let paths := tree.glob (Path.join root "levels") "*.lvl"
    let outputs := paths.map (Assets.levelOutputs tree root)
    return [.count paths.length,
      .count (paths.foldl (fun n path => n + (Assets.levelBase (Assets.levelName tree path)).length) 0),
      .count outputs.flatten.length,
      .count (outputs.filter List.isEmpty).length]

end EscapeRoom.Workload
