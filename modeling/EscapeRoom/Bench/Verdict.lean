import EscapeRoom.Bench.CoverageTable
import EscapeRoom.Bench.Value
import EscapeRoom.Json.Read

/-!
# Verdicts on benches

The report of a self-check is judged bench by bench. The first thing that is wrong with a bench is its
verdict.
-/

namespace EscapeRoom.Bench

inductive OutputError where
  | failed (text : String)
  | json (e : Json.ReadError)
  | noMembers (type member : String)
  | noNumber (text : String)
  | notNumber (type : String)
  deriving Repr, DecidableEq

def OutputError.text : OutputError → String
  | .failed text => "RuntimeError: " ++ text
  | .json (.malformed fault line column position) =>
    "JSONDecodeError: " ++ (Json.ReadError.malformed fault line column position).message
  | .json e => "ValueError: " ++ e.message
  | .noMembers type member =>
    "AttributeError: '" ++ type ++ "' object has no attribute '" ++ member ++ "'"
  | .noNumber text => "ValueError: could not convert string to float: " ++ Text.quoted text
  | .notNumber type =>
    "TypeError: float() argument must be a string or a real number, not '" ++ type ++ "'"

def typeOf (v : Json) : String :=
  (Value.ofJson v).typeName

/-- The members of a value; what is missing, null or empty has none. -/
def membersOr (member : String) : Option Json → Except OutputError (List (String × Json))
  | some (.obj members) => .ok members
  | none | some .null | some (.bool false) | some (.int 0) | some (.str "") | some (.arr []) => .ok []
  | some v => .error (.noMembers (typeOf v) member)

/-- A value as a number; a text may stand for one. -/
def numberOf (v : Json) : Except OutputError Number.Double :=
  match v, v.number? with
  | _, some x => .ok x
  | .str s, none =>
    match Number.realValue? s with
    | some x => .ok x
    | none => .error (.noNumber s)
  | v, none => .error (.notNumber (typeOf v))

def numbersIn (members : List (String × Json)) (key : String) :
    Except OutputError (List Number.Double) := do
  (← membersOr "values" (Table.get? members key)).mapM fun m => numberOf m.2

/-- The middle of some numbers, or half way between the two in the middle. -/
def median (l : List Number.Double) : Option Number.Double :=
  let sorted := l.mergeSort fun a b => !b.lt a
  let half := sorted.length / 2
  match sorted[half]? with
  | none => none
  | some x =>
    if sorted.length % 2 = 1 then some x
    else some (((sorted.getD (half - 1) x).add x).div (.ofInt 2))

def leastOf : List Number.Double → Option Number.Double
  | [] => none
  | x :: rest => some (rest.foldl Number.Double.min x)

structure CheckedBench where
  /-- The type of the result; empty if it is not known. -/
  returnType : String
  stable : List Json
  byArguments : List Json
  argumentPrints : List Json
  ownPart : Option Number.Double
  ownTime : Option Number.Double

def itemsOf : Option Json → List Json
  | some (.arr items) => items
  | _ => []

def CheckedBench.of (members : List (String × Json)) : Except OutputError CheckedBench := do
  let byArguments ← membersOr "values" (Table.get? members "fp_by_param")
  let parts ← numbersIn members "repo_frac"
  let times ← numbersIn members "repo_tt_ms"
  return {
    returnType := ((Table.get? members "ret_type").bind Json.str?).getD ""
    stable := itemsOf (Table.get? members "fp_stable")
    byArguments := byArguments.map (·.2)
    argumentPrints := itemsOf (Table.get? members "param_fps")
    ownPart := leastOf parts
    ownTime := median times }

inductive Verdict where
  | error
  | returnsNone
  | unstable
  | returnsInput
  | lowRepoTime
  | tooFast
  | paramInvariant
  | repoModified
  | okUnparam
  | ok
  deriving Repr, DecidableEq

def Verdict.name : Verdict → String
  | .error => "error"
  | .returnsNone => "returns-none"
  | .unstable => "unstable"
  | .returnsInput => "returns-input"
  | .lowRepoTime => "low-repo-time"
  | .tooFast => "too-fast"
  | .paramInvariant => "param-invariant"
  | .repoModified => "repo-modified"
  | .okUnparam => "ok-unparam"
  | .ok => "ok"

def Verdict.isOk : Verdict → Bool
  | .ok | .okUnparam => true
  | _ => false

def allSame : List Json → Bool
  | [] => false
  | v :: rest => rest.all (· == v)

/-- The verdict on a bench in a repository whose own files may have been changed. -/
def CheckedBench.verdict (b : CheckedBench) (modified : Bool) : Verdict :=
  if b.returnType.isEmpty || Text.startsWith b.returnType "<" then .error
  else if b.returnType = "NoneType" then .returnsNone
  else if !allSame b.stable then .unstable
  else if b.stable.any (b.argumentPrints.contains ·) then .returnsInput
  else if b.ownPart.any (·.lt (.ofRatio false 1 2)) then .lowRepoTime
  else if b.ownTime.any (·.lt (.ofInt 1)) then .tooFast
  else if 2 ≤ b.byArguments.length && allSame b.byArguments then .paramInvariant
  else if modified then .repoModified
  else if b.byArguments.length < 2 then .okUnparam
  else .ok

def CheckedBench.row (b : CheckedBench) (name : String) (v : Verdict) : String :=
  let part := (b.ownPart.getD (.zero false)).mul (.ofInt 100)
  (if v.isOk then "    " else "  * ") ++ Text.padRight 32 name ++ " " ++ Text.padRight 16 v.name ++
    " (" ++ (if b.returnType.isEmpty then "?" else b.returnType) ++ ", repo " ++ percentText part ++
    ") " ++ (b.ownTime.getD (.zero false)).fixedText 1 ++ "ms"

def verdictHints : List String :=
  ["  returns-none: run() has no return — collect and return the call results",
    "  unstable: seed RNG in setup; avoid time/uuid/id in the return",
    "  returns-input: return repo output, not the parameter value",
    "  low-repo-time: <50% of run() time is in repo code — move glue to setup",
    "  param-invariant: return something derived from run()'s work, not setup",
    "  repo-modified: revert edits to repo files (git checkout -- <path>)"]

/-- The lines about the benches of a self-check: those with something wrong first. -/
def verdictLines (benches : List (String × CheckedBench × Verdict)) : List String :=
  let (fine, wrong) := benches.partition fun (_, _, v) => v.isOk
  "self-check (* = fix needed):" :: verdictHints ++
    (wrong ++ fine).map fun (name, b, v) => b.row name v

end EscapeRoom.Bench
