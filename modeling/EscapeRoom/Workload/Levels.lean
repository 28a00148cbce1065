import EscapeRoom.Command.LevelCompiler
import EscapeRoom.Sample.Faulty
import EscapeRoom.Sample.Level
import EscapeRoom.Workload.Tilesets

/-!
# Workloads on levels

Reading a level, compiling it, compiling levels full of faults, and running the level compiler.
-/

namespace EscapeRoom.Workload

def putLevel (rooms : Nat) : Act Unit := do
  putTileset "lv.tset" "lvtiles" 32
  putText "bench.lvl" (Sample.levelText rooms { tileset := "lv.tset" })

def loadLevel (path : String) : Act (Level × List Level.Issue) := do
  let tree ← Act.tree
  match (Level.load ⟨path, tree.isFile, tree.linewiseText⟩).run .collecting with
  | (.ok (some level), issues) => return (level, issues)
  | (.ok none, _) | (.error (.issue _), _) => Act.crash (.file .missing path)
  | (.error (.broken b), _) => Act.crash (.level b)

def compileLevel (path : String) : Act (Level.Compiled × List Level.Issue) := do
  match LevelCompiler.compileFile (← Act.tree) path with
  | (.ok (some c), issues) => return (c, issues)
  | (.ok none, _) => Act.crash (.file .missing path)
  | (.error b, _) => Act.crash (.level b)

def levelReading (rooms : Nat) : Workload where
  prepare := putLevel rooms
  run := do
    let (level, issues) ← loadLevel (← place "bench.lvl")
    return [.count level.rooms.length, .count level.flags.length, .count level.vars.length,
      .count level.items.length, .count level.messages.length, .count level.conds.length,
      .count level.acts.length, .count level.tiles.length, .count issues.length]

/-- The figures are the sizes of all texts about the level, and two names. -/
def levelCompiling (rooms : Nat) : Workload where
  prepare := putText "bench.lvl" (Sample.levelText rooms {})
  run := do
    let (c, issues) ← compileLevel (← place "bench.lvl")
    putText "out.sym" (Level.symbolMap c)
    return [.count c.blob.length, .count (Level.idsHeader c.level).length, .count c.blob.length,
      .count (Level.arrayDefinition c.blob "bench_blob").length,
      .count (Level.embedding "x.bin" "bench_blob").length,
      .count (Level.declaration "bench_blob").length, .count Level.formatHeader.length,
      .name (Level.fileBase c.level.name), .name (Level.symbol "9bad name!"), .count issues.length]

def smallRoom : List String :=
  ["ROOM R0", "SPAWNS", "  S0 0,0", "END", "MAP", "..", "..", "END", "ENDROOM"]

def misfits : List (String × String) :=
  [("badts.tset", Sample.afterHeader []),
    ("empty.lvl", Sample.linesText ["; only a comment"]),
    ("lt.lvl", Sample.linesText (["LEVEL name=\"x\" w=2 h=2 start=R0:S0 tset=missing.tset", "TILES",
      "  . TILE_FLOOR", "  # THING", "END"] ++ smallRoom)),
    ("lt2.lvl", Sample.linesText ("LEVEL name=\"x\" w=2 h=2 start=R0:S0 tset=badts.tset" :: smallRoom)),
    ("lt3.lvl", Sample.linesText ["LEVEL name=\"x\" w=2 h=2"]),
    ("lt4.lvl", Sample.linesText ["LEVEL name=\"x\" w=2 h=2 start=R0S0"]),
    ("lt5.lvl", Sample.linesText
      ["LEVEL name=\"x\" w=bad h=2 start=R0:S0", "FLAGS", "  F", "END", "ROOM R0", "ENDROOM"]),
    ("lt6.lvl", Sample.linesText (["LEVEL name=\"x\" w=2 h=2 start=R0:S0 tset=ok.tset", "TILES",
      "  . TILE_FLOOR", "  # NOPE", "END"] ++ smallRoom)),
    ("ok.tset", Sample.linesText ["TSET name=\"ok\" tileSize=2x2 bgColor=0 mc1Color=0 mc2Color=0",
      "TILES", "  FLOOR chars=0,1,2,3 color=0", "END", "CHARMAP", "  . FLOOR", "END"]),
    ("stamp.lvl", Sample.linesText ["LEVEL name=\"s\" w=4 h=4 start=R0:S0 tset=stamp.tset", "TILES",
      "  . A", "END", "ROOM R0", "SPAWNS", "  S0 0,0", "END", "MAP", "@@..", "@@..", "..@@", "...@",
      "END", "ENDROOM"]),
    ("stamp.tset", Sample.linesText ["TSET name=\"s\" tileSize=2x2 bgColor=0 mc1Color=0 mc2Color=0",
      "TILES", "  A chars=0,1,2,3 color=0", "  B chars=0,1,2,3 color=0", "  C chars=0,1,2,3 color=0",
      "  D chars=0,1,2,3 color=0", "END", "OBJECTS", "  STAMP size=2x2 tiles=A,B,C,D", "END",
      "CHARMAP", "  . A", "  @ STAMP", "END"])]

def countIssues (file : String) : Act Nat := do
  return (LevelCompiler.compileFile (← Act.tree) (← place file)).2.length

/-- The figures are the issues and the size of the level with all faults, and the issues of a file that is
no text and of a level with a broken stamp. -/
def levelFaults (rooms : Nat) : Workload where
  prepare := do
    putText "bad.lvl" (Sample.faultyLevel rooms)
    put "binlvl.lvl" (.data (List.replicate 10 [0xFF, 0xFE, 0, 0]).flatten)
    putTexts misfits
  run := do
    let (c, issues) ← compileLevel (← place "bad.lvl")
    return [.count issues.length, .count c.blob.length,
      .count (← countIssues "binlvl.lvl"), .count (← countIssues "stamp.lvl")]

/-- The options that give the level compiler directories of its own. -/
def levelDirectories : List (String × String) :=
  [("--out-assets", "out/assets"), ("--out-src", "out/src"), ("--out-include", "out/inc"),
    ("--out-debug", "out/dbg"), ("--format-h", "out/fmt.h")]

/-- The options that give every output of the level compiler a path from the root. -/
def levelPaths : List String :=
  ["-o", "gen/assets/levels/mb.bin", "--ids", "gen/include/levels/mb.h",
    "--json", "gen/analysis/levels/mb.json", "--sym", "gen/analysis/levels/mb.sym",
    "--blob-c", "gen/src/levels/mb.c", "--blob-h", "gen/include/levels/mb-blob.h",
    "--format-h", "gen/include/mb_fmt.h"]

def levelCommand (rooms : Nat) : Workload where
  prepare := putLevel rooms
  run := do
    let input ← place "bench.lvl"
    let directories ← levelDirectories.mapM fun (option, file) => return [option, ← place file]
    LevelCompiler.run (input :: directories.flatten)
    LevelCompiler.run [input]
    LevelCompiler.run (input :: levelPaths)
    let (c, _) ← compileLevel input
    let tree ← Act.tree
    let out := Path.components (← place "out")
    return [.count c.blob.length, .count (Level.arrayDefinition c.blob "lvl_blob").length,
      .count (← sizeOf (← place "out/assets/bench_level.bin")),
      .count (tree.files.filter fun f => out.isPrefixOf f.1).length]

end EscapeRoom.Workload
