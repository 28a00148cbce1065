import EscapeRoom.Command.TilesetCompiler
import EscapeRoom.Sample.Faulty
import EscapeRoom.Sample.Tileset
import EscapeRoom.Workload.Basic

/-!
# Workloads on tilesets

Reading a tileset, compiling it, reading tilesets full of faults, and running the tileset compiler.
-/

namespace EscapeRoom.Workload

def putTileset (file name : String) (tiles : Nat) : Act Unit := do
  put "chars.bin" (emptyCharset 2048)
  putText file (Sample.tilesetText tiles { name, charset := "chars.bin" })

/-- The tileset of a file; its first issue ends the run. -/
def readStrictly (path : String) : Act LinkedTileset := do
  let source ← linewiseText path
  match ((Tileset.read ⟨path, (← Act.tree).isFile⟩ source).run .strict).1 with
  | .ok ts => return ts
  | .error (.issue i) => Act.crash (.tilesetIssue i)
  | .error (.broken b) => Act.crash (.tileset b)

def readWithIssues (path : String) : Act (LinkedTileset × List Tileset.Issue) := do
  let source ← linewiseText path
  match (Tileset.read ⟨path, (← Act.tree).isFile⟩ source).run .collecting with
  | (.ok ts, issues) => return (ts, issues)
  | (.error (.issue i), _) => Act.crash (.tilesetIssue i)
  | (.error (.broken b), _) => Act.crash (.tileset b)

def tilesetReading (tiles : Nat) : Workload where
  prepare := putTileset "bench.tset" "bench" tiles
  run := do
    let ts ← readStrictly (← place "bench.tset")
    return [.count ts.tiles.length, .count ts.names.length, .count ts.charmap.length,
      .count ts.objects.length, .count ts.stamps.length, .count ts.background.toNat,
      .count ts.multicolor1.toNat, .count ts.multicolor2.toNat, .count ts.declaredCount.toNat]

def tilesetCompiling (tiles : Nat) : Workload where
  prepare := putTileset "bench.tset" "bench" tiles
  run := do
    let ts ← readStrictly (← place "bench.tset")
    let blob := Tileset.blob ts.toTileset
    return [.count blob.length, .count (Tileset.idsHeader ts.toTileset).length,
      .count (Tileset.listing ts.toTileset).length, .count blob.length, .count ts.tiles.length,
      .count ts.objects.length]

def faultyHeaders : List (String × String) :=
  [("b0.tset", Sample.underHeader "TSET tileSize=22 bgColor=0 mc1Color=0 mc2Color=0"),
    ("b1.tset", Sample.underHeader "TSET tileSize=3x3 bgColor=0 mc1Color=0 mc2Color=0"),
    ("b2.tset", Sample.underHeader "TSET tileSize=2x2"),
    ("b3.tset", Sample.underHeader "TSET tileSize=2x2 bgColor=zz mc1Color=zz mc2Color=zz"),
    ("b4.tset", Sample.linesText ["TSET tileSize=2x2 count=1 bgColor=0 mc1Color=0 mc2Color=0", "TILES",
      "  X chars=0,1,2,3 color=0", "  Y chars=0,1,2,3 color=0", "END"]),
    ("b5.tset", Sample.underHeader "TSET bgColor=0 mc1Color=0 mc2Color=0"),
    ("b6.tset", Sample.underHeader "TSET tileSize=2x2 bgColor=99 mc1Color=99 mc2Color=99"),
    ("b7.tset", Sample.afterHeader ["TILE id=bad chars=0,1,2,3 color=0"]),
    ("empty.tset", Sample.linesText ["; nothing"]),
    ("hdr.tset", Sample.linesText
      ["TSET name=\"h\" tileSize=axb bgColor=0 mc1Color=0 mc2Color=0"]),
    ("pre.tset", Sample.linesText (["CHARMAP", "END",
      "TSET name=\"p\" tileSize=2x2 bgColor=0 mc1Color=0 mc2Color=0"] ++ Sample.plainTiles))]

def unreadableLines : List (String × String) :=
  [("r0.tset", Sample.afterHeader ["GARBAGE"]),
    ("r1.tset", Sample.afterHeader ["FLAGBITS"]),
    ("r2.tset", Sample.afterHeader ["CHARMAP", "  x", "END"]),
    ("r3.tset", Sample.afterHeader ["TILE id=0 chars=0,1,2,3 color=0 flags=NOPE"])]

def tilesetFaults (tiles : Nat) : Workload where
  prepare := do
    putText "bad.tset" (Sample.faultyTileset tiles)
    putTexts faultyHeaders
    putTexts unreadableLines
  run := do
    let (ts, issues) ← readWithIssues (← place "bad.tset")
    return [.count issues.length, .count ts.tiles.length, .count ts.objects.length]

def headerWith (fields : String) : String :=
  Sample.linesText ["TSET " ++ fields]

def loneTile (fields : String) : String :=
  Sample.afterHeader ["TILE " ++ fields]

def loneObject (fields : String) : String :=
  Sample.afterHeader (Sample.plainTiles ++ ["OBJECTS", "  O " ++ fields, "END"])

def singleFaults : List String :=
  [Sample.linesText ["TILE id=0"],
    headerWith "bgColor=0 mc1Color=0 mc2Color=0",
    headerWith "tileSize=22 bgColor=0 mc1Color=0 mc2Color=0",
    headerWith "tileSize=axb bgColor=0 mc1Color=0 mc2Color=0",
    headerWith "tileSize=3x3 bgColor=0 mc1Color=0 mc2Color=0",
    headerWith "tileSize=2x2 count=bad bgColor=0 mc1Color=0 mc2Color=0",
    headerWith "tileSize=2x2 mc1Color=0 mc2Color=0",
    headerWith "tileSize=2x2 bgColor=0 mc2Color=0",
    headerWith "tileSize=2x2 bgColor=0 mc1Color=0",
    headerWith "tileSize=2x2 bgColor=zz mc1Color=0 mc2Color=0",
    headerWith "tileSize=2x2 bgColor=0 mc1Color=zz mc2Color=0",
    headerWith "tileSize=2x2 bgColor=0 mc1Color=0 mc2Color=zz",
    headerWith "tileSize=2x2 bgColor=99 mc1Color=0 mc2Color=0",
    headerWith "tileSize=2x2 bgColor=0 mc1Color=99 mc2Color=0",
    headerWith "tileSize=2x2 bgColor=0 mc1Color=0 mc2Color=99",
    headerWith "tileSize=2x2 bgColor=0 mc1Color=0 mc2Color=0 charset=missing.bin",
    Sample.afterHeader ["FLAGBITS"],
    Sample.afterHeader ["TILES", "  X id=bad chars=0,1,2,3 color=0", "END"],
    loneTile "chars=0,1,2,3 color=0",
    loneTile "id=bad chars=0,1,2,3 color=0",
    loneTile "id=400 chars=0,1,2,3 color=0",
    loneTile "id=0 color=0",
    loneTile "id=0 chars=0,1,2 color=0",
    loneTile "id=0 chars=300,1,2,3 color=0",
    loneTile "id=0 chars=0,1,2,3 colors=1,2,3",
    loneTile "id=0 chars=0,1,2,3 color=zz",
    loneTile "id=0 chars=0,1,2,3",
    loneTile "id=0 chars=0,1,2,3 color=99",
    loneTile "id=0 chars=0,1,2,3 color=0 flags=NOPE",
    Sample.afterHeader ["TILES", "  X chars=0,1,2,3 color=0", "  X chars=0,1,2,3 color=0", "END"],
    Sample.afterHeader
      ["TILES", "  X id=0 chars=0,1,2,3 color=0", "  Y id=0 chars=0,1,2,3 color=0", "END"],
    Sample.afterHeader [],
    Sample.linesText ["TSET tileSize=2x2 count=1 bgColor=0 mc1Color=0 mc2Color=0", "TILES",
      "  X chars=0,1,2,3 color=0", "  Y chars=0,1,2,3 color=0", "END"],
    Sample.afterHeader ["WHAT"],
    Sample.afterHeader ["CHARMAP", "  x", "END"],
    Sample.afterHeader ["CHARMAP", "  xx YY", "END"],
    Sample.afterHeader ["CHARMAP", "  x YY", "  x YY", "END"],
    loneObject "char=x",
    loneObject "tiles=X",
    loneObject "size=a tiles=X",
    loneObject "size=axb tiles=X",
    loneObject "size=2x2 tiles=X",
    loneObject "size=1x1 tiles=NOPE",
    Sample.afterHeader (Sample.plainTiles ++ ["CHARMAP", "  x NOPE", "END"])]

/-- The options of the tileset compiler that name an output, and the outputs. -/
def tilesetOutputs : List (String × String) :=
  [("-o", "out/t.bin"), ("--ids", "out/t_ids.h"), ("--blob-h", "out/t_blob.h"),
    ("--blob-c", "out/t_blob.c"), ("--charset-h", "out/t_cs.h"), ("--charset-c", "out/t_cs.c"),
    ("--sym", "out/t.sym"), ("--json", "out/t.json")]

def tilesetCommand (tiles : Nat) : Workload where
  prepare := do
    putTileset "bench.tset" "benchts" tiles
    putText "bad.tset" (Sample.linesText ["TILE id=0"])
    putTexts (singleFaults.zipIdx.map fun (text, i) => ("leg" ++ toString i ++ ".tset", text))
  run := do
    let input ← place "bench.tset"
    let options ← tilesetOutputs.mapM fun (option, file) => return [option, ← place file]
    TilesetCompiler.run (input :: options.flatten)
    TilesetCompiler.run [input]
    let ts ← readStrictly input
    let names := (← Act.tree).glob (← place "out") "*"
    return [.count (← sizeOf (← place "out/t.bin")), .count (← sizeOf (← place "out/t_ids.h")),
      .count (← sizeOf (← place "out/t.sym")), .count ts.tiles.length,
      .names (names.map Path.fileName)]

end EscapeRoom.Workload
