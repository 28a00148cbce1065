import EscapeRoom.Command.LevelCompiler
import EscapeRoom.Command.SourceLister
import EscapeRoom.Command.TilesetCompiler

/-!
# The asset builder

The command compiles a tileset and all levels, and then lists the sources anew. It stops at the first
command that fails.
-/

namespace EscapeRoom.AssetBuilder

def usage : Usage :=
  { program := "build_assets.py"
    options := [{ names := ["--tset"] }, { names := ["--levels"] }] }

/-- Starts a command and ends with its exit code if it fails. -/
def startOrExit (tool : Tool) (command : List String → Act Unit) (words : List String) : Act Unit := do
  let code ← Act.start tool command words
  if code != 0 then Act.exit code

/-- The tileset that is asked for, or else the only one among the levels. -/
def findTileset (path : String) : Act String := do
  let tree ← Act.tree
  if tree.isFile path then return path
  match tree.glob (Path.join tree.rootPath "levels") "*.tset" with
  | [candidate] => return candidate
  | candidates =>
    Act.complain ("Tileset not found: " ++ path)
    if !candidates.isEmpty then
      Act.complain ("Available .tset files: " ++ Text.join ", " (candidates.map Path.lastName))
    Act.fail "Pass --tset with the desired tileset path."

def run (words : List String) : Act Unit := do
  let a ← Act.arguments usage words
  let root ← Act.root
  let tileset ← findTileset (Path.absolute root (a.value "--tset" "levels/tileset.tset"))
  let levels := Path.absolute root (a.value "--levels" "levels")
  if !(← Act.tree).isDirectory levels then
    Act.fail ("Levels dir not found: " ++ levels)
  startOrExit .tilesetCompiler TilesetCompiler.run [tileset]
  let files := (← Act.tree).glob levels "*.lvl"
  if files.isEmpty then
    Act.fail ("No .lvl files found in " ++ levels)
  files.forM fun level => startOrExit .levelCompiler LevelCompiler.run [level]
  startOrExit .sourceLister SourceLister.run []

end EscapeRoom.AssetBuilder
