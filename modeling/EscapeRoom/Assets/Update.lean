import EscapeRoom.Assets.Cache
import EscapeRoom.Assets.Outputs
import EscapeRoom.Command.LevelCompiler
import EscapeRoom.Command.TilesetCompiler

/-!
# Updating assets

An update makes the tilesets and levels again that are stale. It may be limited to what a change of one
file asks for.
-/

namespace EscapeRoom.Assets

structure Layout where
  root : String
  levels : String
  tilesets : String
  deriving Repr, DecidableEq

def Layout.cache (l : Layout) : String :=
  Path.join l.root "build/.asset_cache.json"

/-- How far an update has come: the cache, and whether all went well. -/
structure Progress where
  cache : Json
  ok : Bool := true

/-- Makes an input if it is stale. -/
def update (p : Progress) (input : String) (outputs : List String) (make : Act Int) : Act Progress := do
  if !(← Act.orCrash (isStale (← Act.tree) p.cache input outputs)) then return p
  if (← make) = 0 then
    return { p with cache := ← Act.orCrash (record (← Act.tree) p.cache input outputs) }
  return { p with ok := false }

def updateTileset (l : Layout) (p : Progress) (path : String) : Act Progress := do
  let outputs := tilesetOutputs (← Act.tree) l.root path
  update p path outputs
    (Act.start .tilesetCompiler TilesetCompiler.run [path, "-o", outputs.head?.getD ""])

def updateLevel (l : Layout) (p : Progress) (path : String) : Act Progress := do
  let outputs := levelOutputs (← Act.tree) l.root path
  update p path outputs (Act.start .levelCompiler LevelCompiler.run [path])

def changedWith (changed : Option String) (ending : String) : Bool :=
  match changed with
  | some path => Text.endsWith path ending
  | none => false

/-- Updates tilesets and levels: all of them, or only the tilesets if a tileset has changed, or only the
level that has changed. -/
def updateAll (l : Layout) (changed : Option String) : Act Bool := do
  let tree ← Act.tree
  let mut p : Progress := { cache := loadCache tree l.cache }
  if !changedWith changed ".lvl" then
    p ← (tree.glob l.tilesets "*.tset").foldlM (updateTileset l) p
  if !changedWith changed ".tset" then
    let levels := (← Act.tree).glob l.levels "*.lvl"
    let wanted := levels.filter fun path => !changedWith changed ".lvl" || some path = changed
    p ← wanted.foldlM (updateLevel l) p
  saveCache l.cache p.cache
  return p.ok

def updateTilesets (l : Layout) (changed : Option String) : Act Bool := do
  let tree ← Act.tree
  let paths := match changed with
    | none | some "" => tree.glob l.tilesets "*.tset"
    | some path => [Path.tidy path]
  let p ← paths.foldlM (updateTileset l) { cache := loadCache tree l.cache }
  saveCache l.cache p.cache
  return p.ok

end EscapeRoom.Assets
