import EscapeRoom.Files.Tree

/-!
# Source lists

The sources of a project are listed as files, as directories and as name patterns. Expanding a list gives
the files as seen from the root, every one of them once.
-/

namespace EscapeRoom.Project

inductive SourceError where
  | outside (path root : String)
  | starsInName
  deriving Repr, DecidableEq

def matchingFiles (t : FileTree) (directory pattern : String) : List String :=
  if pattern = "**" || pattern = ".." then []
  else (t.glob directory pattern).filter t.isFile

def fromRoot (root path : String) : Except SourceError String :=
  match Path.within? root path with
  | some p => .ok p
  | none => .error (.outside path root)

def sortNames (names : List String) : List String :=
  names.mergeSort fun a b => decide (a ≤ b)

/-- The files that an entry of the list stands for. A file that is not there stands for itself. -/
def expandSource (t : FileTree) (entry : String) : Except SourceError (List String) := do
  let root := t.rootPath
  let path := Path.tidy (Path.join root entry)
  if Glob.isPattern entry then
    let pattern := Path.lastName path
    if pattern != "**" && (Text.indexOf? "**".toList pattern.toList).isSome then throw .starsInName
    return sortNames (← (matchingFiles t (Path.parent path) pattern).mapM (fromRoot root))
  else if Text.endsWith entry "/" || t.isDirectory path then
    return sortNames (← (matchingFiles t path "*.c").mapM (fromRoot root))
  else if t.exists? path then return [← fromRoot root path]
  else return [entry]

def keepFirst (l : List String) : List String :=
  l.foldl (fun kept s => if kept.contains s then kept else kept ++ [s]) []

def expandSources (t : FileTree) (entries : List String) : Except SourceError (List String) := do
  return keepFirst (← entries.mapM (expandSource t)).flatten

/-- How the line begins that lists the sources of the program in a build file. -/
def programRule : String :=
  "build $target | $dbg_out : cc "

/-- A build file with the sources in its first program rule; none if it has no such rule. -/
def patchRule (sources : List String) : List (String × String) → Option String
  | [] => none
  | (line, lineEnd) :: rest =>
    if Text.startsWith line programRule then
      some (programRule ++ Text.join " " sources ++ "\n" ++
        String.join (rest.map fun (line, lineEnd) => line ++ lineEnd))
    else (patchRule sources rest).map ((line ++ lineEnd) ++ ·)

end EscapeRoom.Project
