/-!
# Computations that report issues

A computation may meet issues, which it reports, and may break off. In strict mode the first issue ends
it; in collecting mode issues are noted in order and the computation goes on. The issues noted before
a computation broke off are kept.

A computation comes to an outcome and a list of issues of its own, which do not depend on what was noted
before it. This law is part of the type, so that it holds of everything that is built here.
-/

namespace EscapeRoom

inductive Mode where
  | strict
  | collecting
  deriving Repr, DecidableEq

/-- Why a computation ended without a value: at an issue, or broken off. -/
inductive Halt (ι χ : Type) where
  | issue (i : ι)
  | broken (c : χ)
  deriving Repr, DecidableEq

/-- The outcome in strict mode of a computation that notes some issues in collecting mode. -/
def strictOutcome {ι χ α : Type} (outcome : Except (Halt ι χ) α) : List ι → Except (Halt ι χ) α
  | [] => outcome
  | i :: _ => .error (.issue i)

/-- A way to run comes to an outcome and some issues: it notes them all in collecting mode and stops at
the first in strict mode. Only strict mode ends at an issue. -/
structure ComesTo {ι χ α : Type} (f : Mode → List ι → Except (Halt ι χ) α × List ι)
    (outcome : Except (Halt ι χ) α) (notes : List ι) : Prop where
  collecting : ∀ log, f .collecting log = (outcome, log ++ notes)
  strict : ∀ log, f .strict log = (strictOutcome outcome notes, log)
  not_issue : ∀ i, outcome ≠ .error (.issue i)

structure Report (ι χ α : Type) where
  runFrom : Mode → List ι → Except (Halt ι χ) α × List ι
  lawful : ∃ outcome notes, ComesTo runFrom outcome notes

namespace Report

variable {ι χ α β : Type}

def run (m : Report ι χ α) (mode : Mode) : Except (Halt ι χ) α × List ι :=
  m.runFrom mode []

theorem ext_runFrom {m n : Report ι χ α} (h : m.runFrom = n.runFrom) : m = n := by
  cases m
  cases n
  cases h
  rfl

protected def pure (a : α) : Report ι χ α where
  runFrom _ log := (.ok a, log)
  lawful := ⟨.ok a, [], by simp, by simp [strictOutcome], by simp⟩

theorem comesTo_bind {f : Mode → List ι → Except (Halt ι χ) α × List ι}
    {g : α → Mode → List ι → Except (Halt ι χ) β × List ι} {outcome notes}
    (hf : ComesTo f outcome notes) (hg : ∀ a, ∃ outcome notes, ComesTo (g a) outcome notes) :
    ∃ outcome notes, ComesTo (fun mode log => match f mode log with
      | (.ok a, log) => g a mode log
      | (.error e, log) => (.error e, log)) outcome notes := by
  cases outcome with
  | error e =>
    refine ⟨.error e, notes, fun log => by simp [hf.collecting], fun log => ?_, fun i hi => ?_⟩
    · cases notes <;> simp [hf.strict, strictOutcome]
    · exact hf.not_issue i (by simpa using hi)
  | ok a =>
    obtain ⟨outcome', notes', hg⟩ := hg a
    refine ⟨outcome', notes ++ notes', fun log => by simp [hf.collecting, hg.collecting],
      fun log => ?_, hg.not_issue⟩
    cases notes <;> simp [hf.strict, hg.strict, strictOutcome]

protected def bind (m : Report ι χ α) (f : α → Report ι χ β) : Report ι χ β where
  runFrom mode log :=
    match m.runFrom mode log with
    | (.ok a, log) => (f a).runFrom mode log
    | (.error e, log) => (.error e, log)
  lawful := by
    obtain ⟨outcome, notes, h⟩ := m.lawful
    exact comesTo_bind h fun a => (f a).lawful

instance : Monad (Report ι χ) where
  pure := Report.pure
  bind := Report.bind

def report (i : ι) : Report ι χ Unit where
  runFrom mode log :=
    match mode with
    | .strict => (.error (.issue i), log)
    | .collecting => (.ok (), log ++ [i])
  lawful := ⟨.ok (), [i], by simp, by simp [strictOutcome], by simp⟩

def breakOff (c : χ) : Report ι χ α where
  runFrom _ log := (.error (.broken c), log)
  lawful := ⟨.error (.broken c), [], by simp, by simp [strictOutcome], by simp⟩

/-- Reports an issue if a condition holds. -/
def reportIf (b : Bool) (i : ι) : Report ι χ Unit :=
  if b then report i else pure ()

@[simp] theorem runFrom_pure (a : α) (mode : Mode) (log : List ι) :
    (pure a : Report ι χ α).runFrom mode log = (.ok a, log) := rfl

theorem runFrom_bind (m : Report ι χ α) (f : α → Report ι χ β) (mode : Mode) (log : List ι) :
    (m >>= f).runFrom mode log =
      match m.runFrom mode log with
      | (.ok a, log) => (f a).runFrom mode log
      | (.error e, log) => (.error e, log) := rfl

theorem map_id_report (m : Report ι χ α) : id <$> m = m := by
  apply ext_runFrom
  funext mode log
  show (m >>= fun a => pure (id a)).runFrom mode log = m.runFrom mode log
  rw [runFrom_bind]
  cases h : m.runFrom mode log with
  | mk r l => cases r <;> rfl

theorem bind_assoc_report {γ : Type} (m : Report ι χ α) (f : α → Report ι χ β)
    (g : β → Report ι χ γ) : m >>= f >>= g = m >>= fun a => f a >>= g := by
  apply ext_runFrom
  funext mode log
  rw [runFrom_bind, runFrom_bind, runFrom_bind]
  cases h : m.runFrom mode log with
  | mk r l => cases r <;> rfl

instance : LawfulMonad (Report ι χ) :=
  LawfulMonad.mk' _ map_id_report (fun _ _ => rfl) bind_assoc_report

end Report

end EscapeRoom
