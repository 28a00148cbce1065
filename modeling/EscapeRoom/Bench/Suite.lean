import EscapeRoom.Bench.Value

/-!
# Suites of benches

A suite names routines. A routine is called with named values and gives a value or fails; what it gives
may change from call to call. The routines whose names begin with `bench_` are the benches.
-/

namespace EscapeRoom.Bench

inductive Failure where
  | raised (kind message : String)
  | timedOut
  deriving Repr, DecidableEq

def Failure.kind : Failure → String
  | .raised kind _ => kind
  | .timedOut => "timeout"

def Failure.mark (f : Failure) : String :=
  "<" ++ f.kind ++ ">"

/-- A failure with its message; a missing key is shown in quotes. -/
def Failure.text : Failure → String
  | .raised "KeyError" message => "KeyError: " ++ Text.quoted message
  | .raised kind message => kind ++ ": " ++ message
  | .timedOut => "timeout: "

abbrev Arguments := Table String Value

structure Routine where
  parameters : List Arguments := []
  call : Nat → Arguments → Except Failure Value

abbrev Suite := Table String Routine

def Suite.benches (s : Suite) : Suite :=
  s.filter fun r => Text.startsWith r.1 "bench_"

/-- The files of a repository that hold its own code: neither what was built or taken over nor the
benches and the tools that measure them. -/
def isOwnFile (root file : String) : Bool :=
  let parts := Text.parts '/' (Text.dropChars (root.length + 1) file)
  let name := parts.getLast?.getD ""
  Text.startsWith file (root ++ "/") &&
    !parts.dropLast.any (["vendor", "site-packages", "build", "dist"].contains ·) &&
    name != "microbench.py" && !Text.startsWith name "_pti_"

structure Profile where
  total : Number.Double := .zero false
  rows : List (String × Number.Double) := []

def Profile.timeIn (p : Profile) (holds : String → Bool) : Number.Double :=
  .sum ((p.rows.filter fun r => holds r.1).map (·.2))

/-- A part of the total time, times a factor; nothing is a part of no time. -/
def Profile.part (p : Profile) (factor : Int) (time : Number.Double) : Number.Double :=
  if p.total.isZero then .zero false else ((Number.Double.ofInt factor).mul time).div p.total

end EscapeRoom.Bench
