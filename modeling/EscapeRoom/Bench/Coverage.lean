import EscapeRoom.Bench.Suite
import EscapeRoom.Command.Session

/-!
# Runs for coverage

Every bench is called once while a coverage tool watches. The report of the tool is completed with the
benches that failed.
-/

namespace EscapeRoom.Bench

def failures (suite : Except Failure Suite) : Table String String :=
  match suite with
  | .error e => [("<import>", e.text)]
  | .ok s => s.benches.filterMap fun (name, r) =>
    match r.call 0 [] with
    | .ok _ => none
    | .error e => some (name, e.text)

def benchCount (suite : Except Failure Suite) : Nat :=
  match suite with
  | .error _ => 0
  | .ok s => s.benches.length

def toolLog (root : String) (skipped : List String) : List String :=
  let listed (l : List String) : String := "[" ++ Text.join ", " (l.map Text.quoted) ++ "]"
  ["source=" ++ listed [root], "omit=" ++ listed skipped, "start", "stop"]

/-- The report with what was told to the tool and with the failures of benches. -/
def completeReport (root : String) (skipped : List String) (suite : Except Failure Suite)
    (report : List (String × Json)) : List (String × Json) :=
  let old := match Table.get? report "meta" with
    | some (.obj members) => members
    | _ => []
  let notes := Table.putAll old [
    ("_pti_bench_errors", .obj ((failures suite).map fun (name, text) => (name, .str text))),
    ("_pti_n_benches", .int (benchCount suite))]
  Table.putAll report
    [("log", .arr ((toolLog root skipped).map .str)), ("meta", .obj notes)]

def totalsMember (report : List (String × Json)) (key : String) : Except Crash Json :=
  match Table.get? report "totals" with
  | none => .error (.noMember "totals")
  | some totals =>
    match totals.member? key with
    | none => .error (.noMember key)
    | some v => .ok v

def summaryLine (report : List (String × Json)) (suite : Except Failure Suite) :
    Except Crash String := do
  let percent ← totalsMember report "percent_covered"
  let covered ← totalsMember report "covered_lines"
  let count ← totalsMember report "num_statements"
  return "coverage: " ++ ((percent.number?.getD (.zero false)).fixedText 1) ++ "% (" ++
    covered.compact ++ "/" ++ count.compact ++ " stmts, " ++ toString (benchCount suite) ++
    " benches, " ++ toString (failures suite).length ++ " errors)"

end EscapeRoom.Bench
