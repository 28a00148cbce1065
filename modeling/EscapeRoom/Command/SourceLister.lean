import EscapeRoom.Command.Session
import EscapeRoom.Project.Sources

/-!
# The source lister

The command writes a project configuration in which the list of sources is expanded, and puts the sources
into the build file if there is one.
-/

namespace EscapeRoom.SourceLister

def usage : Usage :=
  { program := "gen_build.py"
    options := [{ names := ["--config"] }, { names := ["--out"] }] }

def orCrash {α : Type} (r : Except Project.SourceError α) : Act α :=
  match r with
  | .ok a => return a
  | .error (.outside path root) => Act.crash (.outside path root)
  | .error .starsInName => Act.crash .starsInName

def expandAll (sources : List Json) : Act (List String) := do
  let files ← sources.mapM fun
    | .str entry => do orCrash (Project.expandSource (← Act.tree) entry)
    | _ => Act.crash .sourceNotText
  return Project.keepFirst files.flatten

def patchBuildFile (root : String) (sources : List String) : Act Unit := do
  let path := Path.join root "build/build.ninja"
  if !(← Act.tree).isFile path then return
  let lines := Text.piecesWithEnds (← Act.readText path)
  match Project.patchRule (sources.map (Path.absolute root)) lines with
  | some text => Act.writeText path text
  | none => return

def run (words : List String) : Act Unit := do
  let a ← Act.arguments usage words
  let root ← Act.root
  let config := Path.absolute root (a.value "--config" "project-config.template.json")
  let out := Path.absolute root (a.value "--out" "project-config.json")
  if !(← Act.tree).isFile config then
    Act.fail ("Config not found: " ++ config)
  match ← Act.readJson config with
  | .obj members =>
    match Table.getD members "sources" (.arr []) with
    | .arr entries =>
      let sources ← expandAll entries
      Act.makeDirectories (Path.parent out)
      let members := Table.put members "sources" (.arr (sources.map .str))
      Act.writeText out ((Json.obj members).pretty 4 ++ "\n")
      patchBuildFile root sources
    | _ => Act.fail "Config 'sources' must be a list."
  | _ => Act.crash .noMembers

end EscapeRoom.SourceLister
