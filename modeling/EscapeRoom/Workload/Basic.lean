import EscapeRoom.Command.Session

/-!
# Workloads

A workload makes sample files in a directory of the project and then does the same work on them as often
as it is run. What a run did is told by a few figures, which do not change from run to run.
-/

namespace EscapeRoom

inductive Figure where
  | count (n : Nat)
  | name (s : String)
  | names (l : List String)
  deriving Repr, DecidableEq

structure Workload where
  prepare : Act Unit
  run : Act (List Figure)

namespace Workload

/-- The directory of sample files, seen from the root of the project. -/
def directory : String := "bench"

def place (name : String) : Act String := do
  return Path.join (Path.join (← Act.root) directory) name

/-- Writes a sample file, whose directory is made if need be. -/
def put (name : String) (content : Content) : Act Unit := do
  let path ← place name
  Act.makeDirectories (Path.directory path)
  Act.write path content

def putText (name text : String) : Act Unit :=
  put name (.ofText text)

def putTexts (files : List (String × String)) : Act Unit :=
  files.forM fun (name, text) => putText name text

def emptyCharset (size : Nat) : Content :=
  .data (List.replicate size 0)

def sizeOf (path : String) : Act Nat := do
  match (← Act.tree).bytes path with
  | .ok bytes => return bytes.length
  | .error e => Act.crash (.file e path)

def linewiseText (path : String) : Act String := do
  match (← Act.tree).linewiseText path with
  | .ok text => return text
  | .error (.file e) => Act.crash (.file e path)
  | .error (.encoding e) => Act.crash (.encoding e)

end Workload

structure WorkloadFamily where
  parameter : String
  usualSize : Nat
  workload : Nat → Workload

end EscapeRoom
