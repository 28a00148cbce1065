import EscapeRoom.Command.Options
import EscapeRoom.Files.Tree
import EscapeRoom.Json.Read
import EscapeRoom.Level.Issue
import EscapeRoom.TileKit.Kit

/-!
# Sessions

A command runs in a session: it reads and writes the files of a project and logs what it prints. It ends
with an exit code, or it breaks off at something that it does not handle. What was written and printed
before stays.
-/

namespace EscapeRoom

inductive Crash where
  | file (error : FileError) (path : String)
  | encoding (error : Text.Utf8.Error)
  | json (error : Json.ReadError)
  | tileset (fault : Tileset.Breakdown)
  | tilesetIssue (i : Tileset.Issue)
  | level (fault : Level.Breakdown)
  | spec (error : TileKit.SpecError)
  | kit (error : TileKit.KitError)
  | koalaSize (size : Nat) (path : String)
  | pictureFormat (ending : String)
  /-- Something that should have named members has none. -/
  | noMembers
  | notTable
  | sourceNotText
  | outside (path root : String)
  | starsInName
  | noMember (key : String)
  | unmeasured (text : String)
  /-- A workload that needs a level has none. -/
  | noLevels
  deriving Repr, DecidableEq

def Crash.message : Crash → String
  | .file e path => e.message path
  | .encoding e => e.message
  | .json e => e.message
  | .tileset fault => fault.message
  | .tilesetIssue i => i.message
  | .level fault => fault.message
  | .spec e => e.message
  | .kit e => e.message
  | .koalaSize size path => Koala.sizeMessage size path
  | .pictureFormat ending => "unknown file extension: " ++ ending
  | .noMembers => "a JSON value without members where members are needed"
  | .notTable => "the asset cache is no JSON object"
  | .sourceNotText => "a source that is no text"
  | .outside path root =>
    Text.quoted path ++ " is not in the subpath of " ++ Text.quoted root ++
      " OR one path is relative and the other is absolute."
  | .starsInName => "Invalid pattern: '**' can only be an entire path component"
  | .noMember key => Text.quoted key
  | .unmeasured text => text
  | .noLevels => "a workload without levels"

inductive Ending where
  | exit (code : Int)
  | crash (c : Crash)
  deriving Repr, DecidableEq

inductive Tool where
  | tilesetCompiler
  | levelCompiler
  | sourceLister
  deriving Repr, DecidableEq

inductive LogEntry where
  | out (line : String)
  | err (line : String)
  | passedOn (text : String)
  | measured (name : String)
  | ran (tool : Tool) (words : List String) (code : Int)
  | crashed (c : Crash)
  deriving Repr, DecidableEq

structure Session where
  tree : FileTree
  log : List LogEntry := []

def Session.printed (s : Session) : String :=
  String.join (s.log.map fun
    | .out line => line ++ "\n"
    | _ => "")

def Session.measured (s : Session) : List String :=
  s.log.filterMap fun
    | .measured name => some name
    | _ => none

abbrev Act := ExceptT Ending (StateM Session)

namespace Act

def print (line : String) : Act Unit :=
  modify fun s => { s with log := s.log ++ [.out line] }

def complain (line : String) : Act Unit :=
  modify fun s => { s with log := s.log ++ [.err line] }

def passOn (text : String) : Act Unit :=
  if text.isEmpty then pure () else modify fun s => { s with log := s.log ++ [.passedOn text] }

def exit {α : Type} (code : Int) : Act α :=
  throw (.exit code)

def crash {α : Type} (c : Crash) : Act α :=
  throw (.crash c)

def orCrash {α : Type} (r : Except Crash α) : Act α :=
  match r with
  | .ok a => return a
  | .error c => crash c

def fail {α : Type} (line : String) : Act α := do
  complain line
  exit 1

def tree : Act FileTree := do
  return (← get).tree

def root : Act String := do
  return (← tree).rootPath

def tryWrite (path : String) (content : Content) : Act (Except FileError Unit) := do
  match (← tree).write path content with
  | .error e => return .error e
  | .ok t =>
    modify fun s => { s with tree := t }
    return .ok ()

def write (path : String) (content : Content) : Act Unit := do
  match ← tryWrite path content with
  | .ok () => pure ()
  | .error e => crash (.file e path)

def writeText (path text : String) : Act Unit :=
  write path (Content.ofText text)

def makeDirectories (path : String) : Act Unit := do
  match (← tree).makeDirectories path with
  | .error e => crash (.file e path)
  | .ok t => modify fun s => { s with tree := t }

def readText (path : String) : Act String := do
  match (← tree).text path with
  | .ok s => return s
  | .error (.file e) => crash (.file e path)
  | .error (.encoding e) => crash (.encoding e)

def jsonCrash (path : String) : FileTree.JsonError → Crash
  | .text (.file e) => .file e path
  | .text (.encoding e) => .encoding e
  | .json e => .json e

def readJson (path : String) : Act Json := do
  match (← tree).json path with
  | .ok v => return v
  | .error e => crash (jsonCrash path e)

/-- The arguments of a command; a wrong use ends it with exit code 2. -/
def arguments (u : Usage) (words : List String) : Act Arguments := do
  match u.read words with
  | .ok a => return a
  | .error .help => exit 0
  | .error (.error e) =>
    complain (u.program ++ ": error: " ++ e.message)
    exit 2

/-- Starts another command. What it does not handle gives exit code 1. -/
def start (tool : Tool) (command : List String → Act Unit) (words : List String) : Act Int := do
  let (ending, s) := (command words).run.run (← get)
  set s
  let code ← match ending with
    | .ok () => pure 0
    | .error (.exit code) => pure code
    | .error (.crash c) =>
      modify fun s => { s with log := s.log ++ [.crashed c] }
      pure 1
  modify fun s => { s with log := s.log ++ [.ran tool words code] }
  return code

end Act

end EscapeRoom
