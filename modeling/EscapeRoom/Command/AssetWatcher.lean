import EscapeRoom.Assets.Update

/-!
# The asset watcher

The command updates the assets of a project, once or whenever a level or a tileset changes.
-/

namespace EscapeRoom.AssetWatcher

open Assets

def usage : Usage :=
  { program := "watch_assets.py"
    argument := some ⟨"root", false⟩
    options := [
      { names := ["--levels"] },
      { names := ["--tset"] },
      { names := ["--interval"], kind := .number },
      { names := ["--once"], kind := .switch }] }

def layoutOf (tree : FileTree) (a : Arguments) : Layout :=
  let root := match a.argument with
    | none | some "" => tree.rootPath
    | some path => Path.absolute tree.rootPath path
  let tileset := Path.absolute root (a.value "--tset" "levels/tileset.tset")
  { root
    levels := Path.absolute root (a.value "--levels" "levels")
    tilesets := if tree.isDirectory tileset then tileset else Path.parent tileset }

/-- Ends with exit code 1 unless there are levels and tilesets. -/
def checkLayout (l : Layout) : Act Unit := do
  let tree ← Act.tree
  if !tree.isDirectory l.levels then
    Act.fail (l.levels ++ ":1:1: error: Levels dir not found")
  if !tree.isDirectory l.tilesets then
    Act.fail (l.tilesets ++ ":1:1: error: Tileset directory not found")
  if (tree.glob l.tilesets "*.tset").isEmpty then
    Act.fail (l.tilesets ++ ":1:1: error: No .tset files found")

def marked (update : Act Bool) : Act Unit := do
  Act.print "ASSETGEN START"
  let _ ← update
  Act.print "ASSETGEN END"

def firstUpdate (l : Layout) : Act Unit :=
  marked (updateAll l none)

/-- The update after a change of a path. Only levels and tilesets count. -/
def onChange (l : Layout) (path : String) (isDirectory : Bool) : Act Unit :=
  if isDirectory then return
  else if Text.endsWith path ".tset" then marked (updateTilesets l (some path))
  else if Text.endsWith path ".lvl" then marked (updateAll l (some path))
  else return

def failUnobserved {α : Type} (interpreter : String) : Act α := do
  Act.complain "watchdog not found. Install into the active interpreter, or use pipx path."
  Act.complain "Examples:"
  Act.complain ("  " ++ interpreter ++ " -m pip install --user watchdog")
  Act.complain "  or ensure pipx venv exists at ~/.local/pipx/venvs/watchdog"
  Act.exit 1

/-- What is asked for: a single update, which is done, or the watching of a project. -/
def begin (words : List String) : Act (Option Layout) := do
  let a ← Act.arguments usage words
  let l := layoutOf (← Act.tree) a
  checkLayout l
  if a.isOn "--once" then
    if !(← updateAll l none) then Act.exit 1
    return none
  return some l

end EscapeRoom.AssetWatcher
