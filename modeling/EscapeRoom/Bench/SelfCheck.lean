import EscapeRoom.Bench.Fingerprint
import EscapeRoom.Bench.Suite
import EscapeRoom.Number.Shortest

/-!
# Self-checks of benches

Every bench is called twice as it is and once with each of its arguments. The fingerprints of the results
show whether the bench is stable and whether its result depends on its arguments.
-/

namespace EscapeRoom.Bench

/-- The text that tells some arguments: names and values in the order of the names. -/
def argumentsKey (a : Arguments) : String :=
  if a.isEmpty then "-"
  else Text.join "," ((a.mergeSort fun x y => decide (x.1 ≤ y.1)).map fun (name, v) =>
    name ++ "=" ++ v.plain)

def defaultKey : String := "<default>"

structure Finding where
  returnType : String
  stable : List String := []
  byArguments : Table String String := []
  argumentPrints : List String := []
  calls : List String := []

def findings (r : Routine) : Except Failure Finding := do
  let first ← r.call 0 []
  let second ← r.call 1 []
  let others ← r.parameters.zipIdx.mapM fun (a, i) => do
    return (argumentsKey a, fingerprint (← r.call (i + 2) a))
  return {
    returnType := first.typeName
    stable := [fingerprint first, fingerprint second]
    byArguments := Table.ofEntries others
    argumentPrints := r.parameters.flatMap fun a => a.values.map fingerprint
    calls := defaultKey :: others.map (·.1) }

/-- What calling a bench showed; of a bench that fails only its failure is told. -/
def Finding.of (r : Routine) : Finding :=
  match findings r with
  | .ok f => f
  | .error e => { returnType := e.mark }

/-- A finding with the parts of the time that were spent in the repository and outside all sources. -/
def Finding.json (f : Finding) (root : String) (p : Profile) : Json :=
  let own := p.timeIn (isOwnFile root)
  let foreign := p.timeIn fun file => file == "~" || Text.endsWith file ".so"
  let forCalls (x : Number.Double) : Json :=
    .obj (Table.ofEntries (f.calls.map fun key => (key, .real (x.roundTo 3))))
  .obj [("ret_type", .str f.returnType), ("fp_stable", .arr (f.stable.map .str)),
    ("fp_by_param", .obj (f.byArguments.map fun (key, print) => (key, .str print))),
    ("param_fps", .arr (f.argumentPrints.map .str)),
    ("repo_frac", forCalls (p.part 1 own)), ("ext_frac", forCalls (p.part 1 foreign)),
    ("repo_tt_ms", forCalls (own.mul (.ofInt 1000)))]

def selfCheck (root : String) (p : Profile) (suite : Except Failure Suite) : Json :=
  match suite with
  | .error e => .obj [("_import_error", .str e.text)]
  | .ok s =>
    .obj [("semcheck", .obj (s.benches.map fun (name, r) => (name, (Finding.of r).json root p)))]

end EscapeRoom.Bench
