import EscapeRoom.Json.Value
import EscapeRoom.Number.Arithmetic
import EscapeRoom.Path
import EscapeRoom.Text.Pad

/-!
# Tables of coverage

The files of a coverage report, the least covered first, with their first missing lines.
-/

namespace EscapeRoom.Bench

/-- The members of an object; a missing value has none. -/
def membersOf : Option Json → List (String × Json)
  | some (.obj members) => members
  | _ => []

/-- A number among members, and zero if there is none. -/
def numberIn (members : List (String × Json)) (key : String) : Number.Double :=
  ((Table.get? members key).bind Json.number?).getD (.zero false)

/-- The text of a value among members, and a zero if there is none. -/
def countIn (members : List (String × Json)) (key : String) : Json :=
  (Table.get? members key).getD (.int 0)

structure FileCoverage where
  name : String
  statements : Json
  missing : Json
  percent : Number.Double
  missingLines : List Json

def nameLimit : Nat := 60

def FileCoverage.of (root : String) (entry : String × Json) : FileCoverage :=
  let members := membersOf (some entry.2)
  let summary := membersOf (Table.get? members "summary")
  let name := if Path.isAbsolute entry.1 then Path.relative root entry.1 root else entry.1
  { name := Text.takeChars nameLimit name
    statements := countIn summary "num_statements"
    missing := countIn summary "missing_lines"
    percent := numberIn summary "percent_covered"
    missingLines := match Table.get? members "missing_lines" with
      | some (.arr lines) => lines
      | _ => [] }

/-- The first twelve missing lines, and a sign if there are more. -/
def FileCoverage.missingText (f : FileCoverage) : String :=
  Text.join "," ((f.missingLines.take 12).map Json.compact) ++
    if 12 < f.missingLines.length then "…" else ""

def tableRow (width : Nat) (name statements missing cover : String) : String :=
  Text.padRight width name ++ "  " ++ Text.padLeft 5 statements ++ "  " ++ Text.padLeft 4 missing ++
    "  " ++ Text.padLeft 5 cover

def percentText (x : Number.Double) : String :=
  x.fixedText 0 ++ "%"

def FileCoverage.row (f : FileCoverage) (width : Nat) : String :=
  tableRow width f.name f.statements.compact f.missing.compact (percentText f.percent) ++ "  " ++
    f.missingText

structure CoverageTotals where
  percent : Number.Double
  covered : Json
  statements : Json

def CoverageTotals.of (report : List (String × Json)) : CoverageTotals :=
  let totals := membersOf (Table.get? report "totals")
  { percent := numberIn totals "percent_covered"
    covered := countIn totals "covered_lines"
    statements := countIn totals "num_statements" }

def CoverageTotals.missing (t : CoverageTotals) : Int :=
  (t.statements.int?).getD 0 - (t.covered.int?).getD 0

def coverageTable (root : String) (report : List (String × Json)) : List String :=
  let files := (membersOf (Table.get? report "files")).map (FileCoverage.of root)
  let sorted := files.mergeSort fun a b => !b.percent.lt a.percent
  let width := min nameLimit (files.foldl (fun w f => max w f.name.length) 4)
  let rule := String.ofList (List.replicate (width + 42) '-')
  let totals := CoverageTotals.of report
  [tableRow width "Name" "Stmts" "Miss" "Cover" ++ "  Missing", rule] ++
    sorted.map (·.row width) ++
    [rule, tableRow width "TOTAL" totals.statements.compact (toString totals.missing)
      (percentText totals.percent)]

end EscapeRoom.Bench
