import EscapeRoom.Command.Session

/-!
# The asset cache

The cache is a JSON file that has the modification times of every input and of its outputs when they
were last made. An input is made again if any of these times differ, or if an output is missing.
-/

namespace EscapeRoom.Assets

/-- Whether an integer is a modification time: it is the one nearest to the time, and the time is no
fraction and not rounded. -/
def isTime (n : Int) (time : Number.Double) : Bool :=
  time = .ofInt n && time.integer? = some n

def sameTime (v : Json) (time : Number.Double) : Bool :=
  match v with
  | .int n => isTime n time
  | .bool b => isTime (if b then 1 else 0) time
  | .real x => x = time
  | _ => false

def member (v : Json) (key : String) (default : Json) : Except Crash Json :=
  match v with
  | .obj members => .ok (Table.getD members key default)
  | _ => .error .noMembers

/-- The modification time of a path in seconds, and zero if there is nothing. -/
def timeOf (t : FileTree) (path : String) : Except Crash Number.Double :=
  match t.modified path with
  | .ok time => .ok (.ofInt time)
  | .error e => .error (.file e path)

/-- Whether an input has to be made again. An input that is not there is not made. -/
def isStale (t : FileTree) (cache : Json) (input : String) (outputs : List String) :
    Except Crash Bool := do
  let time ← timeOf t input
  if time.isZero then return false
  let entry ← member cache input (.obj [])
  if !sameTime (← member entry "input_mtime" .null) time then return true
  if ← outputs.anyM fun path => do return (← timeOf t path).isZero then return true
  let cached ← member entry "outputs" (.obj [])
  outputs.anyM fun path => do return !sameTime (← member cached path .null) (← timeOf t path)

def entryJson (t : FileTree) (input : String) (outputs : List String) : Except Crash Json := do
  let time ← timeOf t input
  let times ← outputs.mapM fun path => do return (path, .real (← timeOf t path))
  return .obj [("input_mtime", .real time), ("outputs", .obj (Table.ofEntries times))]

/-- The cache with the present times of an input and its outputs. -/
def record (t : FileTree) (cache : Json) (input : String) (outputs : List String) :
    Except Crash Json := do
  let entry ← entryJson t input outputs
  match cache with
  | .obj members => return .obj (Table.put members input entry)
  | _ => throw .notTable

/-- The cache in a file; one that cannot be read is empty. -/
def loadCache (t : FileTree) (path : String) : Json :=
  match t.json path with
  | .ok v => v
  | .error _ => .obj []

def saveCache (path : String) (cache : Json) : Act Unit := do
  Act.makeDirectories (Path.parent path)
  Act.write path (.json 2 cache)

end EscapeRoom.Assets
