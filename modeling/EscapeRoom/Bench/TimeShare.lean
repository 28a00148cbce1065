import EscapeRoom.Bench.Suite
import EscapeRoom.Json.Value
import EscapeRoom.Number.Shortest

/-!
# Shares of time

For every bench the part of its time that was spent in the repository, in percent, and the two other
modules that took the most time.
-/

namespace EscapeRoom.Bench

def moduleOf (file : String) : String :=
  if file = "~" then "builtins" else Path.baseName file

/-- The times of the modules outside the repository, in the order in which they first occur. -/
def foreignTimes (root : String) (p : Profile) : Table String Number.Double :=
  p.rows.foldl (fun t (file, time) =>
    if isOwnFile root file then t
    else
      let name := moduleOf file
      t.put name ((t.getD name (.zero false)).add time)) []

def Profile.percent (p : Profile) (time : Number.Double) : Number.Double :=
  (p.part 100 time).roundTo 1

/-- The two modules outside the repository that took the most time. -/
def hottest (root : String) (p : Profile) : List (Number.Double × String) :=
  if p.total.isZero then []
  else
    let taken := (foreignTimes root p).filter fun t => (Number.Double.zero false).lt t.2
    let sorted := taken.mergeSort fun a b => !a.2.lt b.2
    (sorted.take 2).map fun (name, time) => (p.percent time, name)

/-- The share of a bench and its hottest modules; one that fails has a negative share. -/
def shareOf (root : String) (p : Profile) (r : Routine) :
    Number.Double × List (Number.Double × String) :=
  match r.call 0 [] with
  | .ok _ => (p.percent (p.timeIn (isOwnFile root)), hottest root p)
  | .error e => (.ofInt (-1), [(.zero false, e.mark)])

def timeShares (root : String) (p : Profile) (suite : Except Failure Suite) : Json :=
  match suite with
  | .error e => .obj [("_import_error", .str e.text)]
  | .ok s =>
    let shares := s.benches.map fun (name, r) => (name, shareOf root p r)
    .obj [("repo_time_pct", .obj (shares.map fun (name, share, _) => (name, .real share))),
      ("hot_ext", .obj (shares.map fun (name, _, modules) =>
        (name, .arr (modules.map fun (percent, title) => .arr [.real percent, .str title]))))]

end EscapeRoom.Bench
