import EscapeRoom.Bench.CoverageTable
import EscapeRoom.Json.Read
import EscapeRoom.Text.Lines

/-!
# Checkpoints of rounds

Each round of measurements leaves a line in a file. From these lines it is told whether further rounds
still bring anything.
-/

namespace EscapeRoom.Bench

structure RoundResult where
  number : Nat
  time : Number.Double
  totals : CoverageTotals
  benches : Nat
  failing : Nat
  seconds : Number.Double
  shares : List (String × Json)
  /-- How many benches spend too little time in the repository, if that was measured. -/
  below : Option Nat
  verdicts : List (String × String)
  wrong : Nat

/-- The line that a round leaves, when the one before it ended some time ago. -/
def RoundResult.line (r : RoundResult) (since : Number.Double) : String :=
  (Json.obj [("round", .int r.number), ("ts", .real r.time), ("wall_since_prev_s", .real since),
    ("coverage_pct", .real r.totals.percent), ("covered_lines", r.totals.covered),
    ("num_statements", r.totals.statements), ("n_bench_fns", .int r.benches),
    ("n_bench_errors", .int r.failing), ("cov_measure_s", .real r.seconds),
    ("repo_time_pct", .obj r.shares),
    ("n_below_repo_time", match r.below with
      | some n => .int n
      | none => .null),
    ("semcheck", .obj (r.verdicts.map fun (name, v) => (name, .str v))),
    ("n_not_self_checking", .int r.wrong)]).compact

def earlierLines (text : String) : List String :=
  (Text.lines text).filter fun line => !(Text.trim line).isEmpty

/-- The time since the last of some lines, if it can be read; a first round comes after no time. -/
def timeSince (lines : List String) (now : Number.Double) : Option Number.Double :=
  match lines.getLast? with
  | none => some (.zero false)
  | some line =>
    match Json.read line with
    | .ok (.obj members) =>
      match (Table.get? members "ts").bind Json.number? with
      | some time => some ((now.sub time).roundTo 2)
      | none => some (.zero false)
    | _ => none

def coverageGoal : Number.Double := .ofInt 60

/-- The number of benches below the goal that a line tells, if its round counts. -/
def belowIn? (line : String) : Option Int :=
  match Json.read line with
  | .ok (.obj members) =>
    if (numberIn members "coverage_pct").lt coverageGoal then none
    else (Table.get? members "n_below_repo_time").bind Json.int?
  | _ => none

def leastInt : List Int → Option Int
  | [] => none
  | n :: rest => some (rest.foldl min n)

/-- Why there is no need for another round: no bench is below the goal, or the last three rounds were no
better than one before them. -/
def convergence (lines : List String) (r : RoundResult) : Option String :=
  match r.below with
  | none => none
  | some below =>
    if r.totals.percent.lt coverageGoal then none
    else if below = 0 then some "0 below"
    else
      let history := lines.filterMap belowIn? ++ [(below : Int)]
      let (earlier, recent) := history.splitAt (history.length - 3)
      match leastInt earlier, leastInt recent with
      | some old, some new =>
        if old ≤ new then
          some ("no improvement in 3 rounds; best " ++ toString (min old new) ++ " below")
        else none
      | _, _ => none

end EscapeRoom.Bench
