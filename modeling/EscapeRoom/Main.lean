import EscapeRoom.Command.AssetBuilder
import EscapeRoom.Command.AssetWatcher
import EscapeRoom.Command.TileKitCompiler

/-!
# The command line

The first word names a command, and the other words are its arguments. The directory in which the
program runs is the project: its files are read before the command, and what the command changed is
written after it.
-/

namespace EscapeRoom.CommandLine

def command? : String → Option (List String → Act Unit)
  | "level" => some LevelCompiler.run
  | "tileset" => some TilesetCompiler.run
  | "kit" => some TileKitCompiler.run
  | "sources" => some SourceLister.run
  | "assets" => some AssetBuilder.run
  | _ => none

def usage : String :=
  "usage: escape-room (level | tileset | kit | sources | assets | watch) ARGUMENT..."

/-- Reads a file, or a directory with all that lies in it. What cannot be read is left out. -/
partial def addEntry (place : Place) (t : FileTree) (entry : IO.FS.DirEntry) : IO FileTree := do
  let here := place ++ [entry.fileName]
  if entry.fileName == ".git" then return t
  if ← entry.path.isDir then
    (← entry.path.readDir).foldlM (addEntry here) (t.addDirectory here)
  else
    match ← (IO.FS.readBinFile entry.path).toBaseIO with
    | .error _ => return t
    | .ok bytes =>
      let data ← entry.path.metadata
      return (t.putAt here (.data bytes.toList)).setModified here data.modified.sec.toNat

def readProject : IO FileTree := do
  let directory ← IO.currentDir
  let root := Path.components directory.toString
  (← directory.readDir).foldlM (addEntry root) { root, directories := [], files := [] }

def writeChanges (before after : FileTree) : IO Unit :=
  (after.changesSince before).forM fun (path, content) => do
    let target := Path.join after.rootPath path
    IO.FS.createDirAll (Path.parent target)
    IO.FS.writeBinFile target ⟨content.bytes.toArray⟩

def tell : LogEntry → IO Unit
  | .out line => IO.println line
  | .err line => IO.eprintln line
  | .passedOn text => IO.eprint text
  | .crashed c => IO.eprintln c.message
  | .measured _ | .ran .. => pure ()

def exitCode : Ending → IO UInt32
  | .exit code => return UInt32.ofNat (code % 256).toNat
  | .crash c => do
    IO.eprintln c.message
    return 1

def perform {α : Type} (act : Act α) : IO (Except Ending α) := do
  let before ← readProject
  let (result, s) := act.run.run { tree := before }
  s.log.forM tell
  writeChanges before s.tree
  return result

/-- The files of watched directories, with the times of their last changes. -/
def watchedTimes (l : Assets.Layout) (t : FileTree) : List (String × Nat) :=
  t.files.filterMap fun (place, f) =>
    let path := place.path
    if [l.levels, l.tilesets].contains (Path.directory path) then some (path, f.modified) else none

partial def follow (l : Assets.Layout) (known : List (String × Nat)) : IO UInt32 := do
  IO.sleep 500
  let times := watchedTimes l (← readProject)
  let changed := times.filter fun e => !known.contains e
  match ← perform (changed.forM fun e => AssetWatcher.onChange l e.1 false) with
  | .error e => exitCode e
  | .ok () => follow l times

def watch (words : List String) : IO UInt32 := do
  match ← perform (AssetWatcher.begin words) with
  | .error e => exitCode e
  | .ok none => return 0
  | .ok (some l) =>
    let times := watchedTimes l (← readProject)
    match ← perform (AssetWatcher.firstUpdate l) with
    | .error e => exitCode e
    | .ok () => follow l times

def run : List String → IO UInt32
  | "watch" :: words => watch words
  | name :: words =>
    match command? name with
    | some command => do
      match ← perform (command words) with
      | .ok () => return 0
      | .error e => exitCode e
    | none => do
      IO.eprintln usage
      return 2
  | [] => do
    IO.eprintln usage
    return 2

end EscapeRoom.CommandLine

def main (words : List String) : IO UInt32 :=
  EscapeRoom.CommandLine.run words
