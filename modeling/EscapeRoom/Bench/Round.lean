import EscapeRoom.Bench.Checkpoint
import EscapeRoom.Bench.Verdict
import EscapeRoom.Command.Session

/-!
# Rounds of measurements

A round measures the coverage of the benches, their shares of time and their self-checks, tells what is
to be mended, and leaves a checkpoint.
-/

namespace EscapeRoom.Bench

inductive Measurement where
  | coverage
  | timeShares
  | changes
  | selfCheck
  deriving Repr, DecidableEq

def Measurement.name : Measurement → String
  | .coverage => "cov"
  | .timeShares => "repotime"
  | .changes => "git"
  | .selfCheck => "semcheck"

inductive Outcome where
  | ended (code : Int) (out err : String)
  | failed (text : String)
  deriving Repr, DecidableEq

/-- What a round is given: the root as the reports name it, the outcomes of measurements, and the clock. -/
structure Setting where
  root : String
  outcome : Measurement → Outcome
  started : Number.Double
  ended : Number.Double
  now : Number.Double

def measure (s : Setting) (m : Measurement) : Act Outcome := do
  modify fun session => { session with log := session.log ++ [.measured m.name] }
  return s.outcome m

def inRoot (name : String) : Act String := do
  return Path.join (← Act.root) name

def printSection (lines : List String) : Act Unit := do
  Act.print ""
  lines.forM Act.print

/-- The value on the last line of an output; an output without lines has no members. -/
def lastValue (out : String) : Except OutputError (List (String × Json)) :=
  match (Text.pieces (Text.trim out)).getLast? with
  | none => .ok []
  | some line =>
    match Json.read line with
    | .ok (.obj members) => .ok members
    | .ok v => .error (.noMembers (typeOf v) "get")
    | .error e => .error (.json e)

/-- What is made of the last line of a measurement's output. A measurement that does not work out is
complained about, and then nothing is made of it. -/
def useOutput {α : Type} (s : Setting) (m : Measurement)
    (use : List (String × Json) → Except OutputError (List α)) : Act (List α) := do
  let used ← match ← measure s m with
    | .failed text => pure (.error (.failed text))
    | .ended _ out err => do
      Act.passOn err
      pure (lastValue out >>= use)
  match used with
  | .ok l => return l
  | .error e =>
    Act.complain ("[" ++ m.name ++ " runner: " ++ e.text ++ "]")
    return []

/-- Measures the coverage and reads the report about it. A measurement that fails ends the round. -/
def measureCoverage (s : Setting) : Act (List (String × Json)) := do
  let path ← inRoot "_pti_coverage.json"
  match ← measure s .coverage with
  | .failed text => Act.crash (.unmeasured text)
  | .ended code out err =>
    if code != 0 || !(← Act.tree).isFile path then
      Act.print ("coverage measurement failed (exit " ++ toString code ++ ")")
      Act.print out
      Act.passOn err
      Act.exit (if code = 0 then 1 else code)
    match ← Act.readJson path with
    | .obj report => return report
    | _ => Act.crash .noMembers

/-- A bench's share of time in the repository, in percent, and the modules that took the most other
time. -/
structure Share where
  name : String
  percent : Number.Double
  given : Json
  hot : List Json

def shareGoal : Number.Double := .ofInt 45

def Share.isMeasured (s : Share) : Bool :=
  !s.percent.lt (.zero false)

def Share.isLow (s : Share) : Bool :=
  s.isMeasured && s.percent.lt shareGoal

def sharesOf (members : List (String × Json)) : Except OutputError (List Share) := do
  let shares ← membersOr "items" (Table.get? members "repo_time_pct")
  let hot ← membersOr "get" (Table.get? members "hot_ext")
  return shares.map fun (name, v) =>
    { name, percent := v.number?.getD (.zero false), given := v, hot := itemsOf (Table.get? hot name) }

def hotText : Json → String
  | .arr [percent, .str title] =>
    title ++ " " ++ percentText (percent.number?.getD (.zero false))
  | _ => ""

def Share.row (s : Share) : String :=
  (if s.isLow then "  * " else "    ") ++ Text.padRight 32 s.name ++ " " ++
    Text.padLeft 5 ((s.percent.max (.zero false)).fixedText 1) ++ "%" ++
    if !s.isMeasured then "  <error>"
    else if s.isLow && !s.hot.isEmpty then
      " (hot: " ++ Text.join " " (s.hot.map hotText) ++ ")"
    else ""

def shareLines (shares : List Share) : List String :=
  "repo_time (target 50%; * = below 45%):" ::
    (shares.mergeSort fun a b => !b.percent.lt a.percent).map Share.row

def changedFiles (s : Setting) : Act (List String) := do
  match ← measure s .changes with
  | .failed _ => return []
  | .ended _ out _ =>
    return ((Text.pieces out).filter fun line => !(Text.trim line).isEmpty).map (Text.dropChars 3)

def changeLines (files : List String) : List String :=
  ("** repo modified (" ++ toString files.length ++
    " file(s)) — revert these; only microbench.py is yours to edit:") ::
    (files.take 10).map ("   " ++ ·)

/-- The benches that a self-check tells about, with their verdicts. -/
def checkedBenches (modified : Bool) (members : List (String × Json)) :
    Except OutputError (List (String × CheckedBench × Verdict)) := do
  let entries ← membersOr "items" (Table.get? members "semcheck")
  let checked ← entries.mapM fun (name, v) =>
    match v with
    | .obj members => do
      let b ← CheckedBench.of members
      return some (name, b, b.verdict modified)
    | _ => return none
  return checked.filterMap id

def definesBench (line : String) : Bool :=
  Text.startsWith line "def bench_" && ((line.toList.drop 10).head?.any Text.isWordChar)

def countBenches : Act Nat := do
  match (← Act.tree).text (← inRoot "microbench.py") with
  | .ok source => return ((Text.parts '\n' source).filter definesBench).length
  | .error _ => return 0

def RoundResult.summary (r : RoundResult) (measured : Nat) : String :=
  "[round " ++ toString r.number ++ ": " ++ toString r.benches ++ " benches, " ++
    r.totals.percent.fixedText 1 ++ "% covered" ++
    (match r.below with
      | some n => ", " ++ toString n ++ "/" ++ toString measured ++ " below repo_time 45%"
      | none => "") ++
    (if r.verdicts.isEmpty then ""
      else ", " ++ toString r.wrong ++ "/" ++ toString r.verdicts.length ++ " not self-checking") ++
    ", measured in " ++ r.seconds.fixedText 1 ++ "s]"

/-- Leaves a checkpoint and tells whether the rounds have converged. If the last checkpoint cannot be
read, nothing is left. -/
def leaveCheckpoint (path text : String) (r : RoundResult) : Act Unit := do
  let lines := earlierLines text
  match timeSince lines r.time with
  | none => return
  | some since =>
    Act.writeText path (text ++ r.line since ++ "\n")
    match convergence lines r with
    | none => return
    | some reason =>
      printSection [">>> STOP: repo_time converged (" ++ reason ++
        "). Finalize microbench.py now. <<<"]

def runRound (s : Setting) : Act Unit := do
  let report ← measureCoverage s
  (coverageTable s.root report).forM Act.print
  let failing := membersOf (Table.get? (membersOf (Table.get? report "meta")) "_pti_bench_errors")
  if !failing.isEmpty then
    printSection ((toString failing.length ++ " bench error(s):") ::
      failing.map fun (name, v) => "  " ++ name ++ ": " ++ (Value.ofJson v).plain)
  let shares ← if (← Act.tree).isFile (← inRoot "_pti_repotime.py")
    then useOutput s .timeShares sharesOf else pure []
  if !shares.isEmpty then printSection (shareLines shares)
  let mut benches := []
  if (← Act.tree).isFile (← inRoot "_pti_semcheck.py") then
    let changed ← changedFiles s
    benches ← useOutput s .selfCheck (checkedBenches !changed.isEmpty)
    if !benches.isEmpty then
      if !changed.isEmpty then printSection (changeLines changed)
      printSection (verdictLines benches)
  let path ← inRoot ".pti_checkpoint.jsonl"
  let history := match (← Act.tree).text path with
    | .ok text => text
    | .error _ => ""
  let r : RoundResult :=
    { number := (earlierLines history).length + 1
      time := s.now
      totals := CoverageTotals.of report
      benches := ← countBenches
      failing := failing.length
      seconds := (s.ended.sub s.started).roundTo 2
      shares := shares.map fun share => (share.name, share.given)
      below := if shares.isEmpty then none else some (shares.filter Share.isLow).length
      verdicts := benches.map fun (name, _, v) => (name, v.name)
      wrong := (benches.filter fun (_, _, v) => !v.isOk).length }
  printSection [r.summary (shares.filter Share.isMeasured).length]
  leaveCheckpoint path history r

end EscapeRoom.Bench
