import EscapeRoom.Proofs.CleanRuns

/-!
# Runs in strict mode

In strict mode a computation ends with a value or at its first issue. It ends with a value exactly if it
yields that value, and two sequences of computations end in the same way if their parts do.
-/

namespace EscapeRoom.Report

variable {ι χ α β γ : Type} {m : Report ι χ α}

def strict (m : Report ι χ α) : Except (Halt ι χ) α :=
  (m.run .strict).1

theorem strict_eq_ok {a : α} : m.strict = .ok a ↔ m.Yields a := by
  obtain ⟨outcome, notes, hm⟩ := m.lawful
  have hs : m.strict = strictOutcome outcome notes := congrArg Prod.fst (hm.strict [])
  have hc : m.run .collecting = (outcome, notes) := hm.collecting []
  rw [hs, Yields, hc, Prod.mk.injEq]
  cases notes with
  | nil => simp [strictOutcome]
  | cons i notes => simp [strictOutcome]

theorem strict_eq_issue {i : ι} : m.strict = .error (.issue i) ↔ (m.run .collecting).2.head? = some i := by
  obtain ⟨outcome, notes, hm⟩ := m.lawful
  have hs : m.strict = strictOutcome outcome notes := congrArg Prod.fst (hm.strict [])
  have hc : m.run .collecting = (outcome, notes) := hm.collecting []
  rw [hs, hc]
  cases notes with
  | nil => simp [strictOutcome, hm.not_issue]
  | cons j notes => simp [strictOutcome]

theorem strict_eq_broken {c : χ} : m.strict = .error (.broken c) ↔ m.run .collecting = (.error (.broken c), []) := by
  obtain ⟨outcome, notes, hm⟩ := m.lawful
  have hs : m.strict = strictOutcome outcome notes := congrArg Prod.fst (hm.strict [])
  have hc : m.run .collecting = (outcome, notes) := hm.collecting []
  rw [hs, hc, Prod.mk.injEq]
  cases notes with
  | nil => simp [strictOutcome]
  | cons j notes => simp [strictOutcome]

theorem strict_report (i : ι) : (report i : Report ι χ Unit).strict = .error (.issue i) := rfl

theorem strict_bind (m : Report ι χ α) (f : α → Report ι χ β) :
    (m >>= f).strict = m.strict.bind fun a => (f a).strict := by
  obtain ⟨outcome, notes, hm⟩ := m.lawful
  have hrun : (m >>= f).runFrom .strict [] = _ := runFrom_bind m f .strict []
  have hs : m.strict = strictOutcome outcome notes := congrArg Prod.fst (hm.strict [])
  rw [hm.strict] at hrun
  rw [hs, strict, run, hrun]
  cases strictOutcome outcome notes with
  | ok a => rfl
  | error e => rfl

/-- Two computations end in the same way, up to a function of the value that the first one ends with. -/
def EndsAs (φ : α → β) (m : Report ι χ α) (n : Report ι χ β) : Prop :=
  m.strict.map φ = n.strict

theorem endsAs_id {m n : Report ι χ α} : EndsAs id m n ↔ m.strict = n.strict := by
  rw [EndsAs, Except.map_id]
  rfl

theorem endsAs_of_eq {m n : Report ι χ α} (h : m = n) : EndsAs id m n :=
  endsAs_id.mpr (congrArg strict h)

@[refl] theorem EndsAs.refl (m : Report ι χ α) : EndsAs id m m :=
  endsAs_of_eq rfl

theorem endsAs_pure (φ : α → β) (a : α) : EndsAs φ (pure a : Report ι χ α) (pure (φ a)) := rfl

theorem EndsAs.bind {α' β' : Type} {φ : α → β} {ψ : α' → β'} {n : Report ι χ β}
    {f : α → Report ι χ α'} {g : β → Report ι χ β'} (hm : EndsAs φ m n)
    (hf : ∀ a, m.Yields a → EndsAs ψ (f a) (g (φ a))) : EndsAs ψ (m >>= f) (n >>= g) := by
  unfold EndsAs at hm
  rw [EndsAs, strict_bind, strict_bind, ← hm]
  cases h : m.strict with
  | error e => rfl
  | ok a => exact hf a (strict_eq_ok.mp h)

theorem endsAs_report {φ : α → β} (i : ι) (f : Unit → Report ι χ α) (g : Unit → Report ι χ β) :
    EndsAs φ (report i >>= f) (report i >>= g) := by
  rw [EndsAs, strict_bind, strict_bind, strict_report]
  rfl

/-- Folds end in the same way if every step does, as long as what is left to do is fit for the state. -/
theorem EndsAs.foldlM {σ τ : Type} {φ : σ → τ} {f : σ → α → Report ι χ σ} {g : τ → α → Report ι χ τ}
    (Fit : List α → σ → Prop)
    (hs : ∀ x rest a, Fit (x :: rest) a → EndsAs φ (f a x) (g (φ a) x) ∧
      ∀ a', (f a x).Yields a' → Fit rest a') {xs : List α} {a : σ} (h : Fit xs a) :
    EndsAs φ (xs.foldlM f a) (xs.foldlM g (φ a)) := by
  induction xs generalizing a with
  | nil => exact endsAs_pure φ a
  | cons x xs ih =>
    rw [List.foldlM_cons, List.foldlM_cons]
    obtain ⟨he, hfit⟩ := hs x xs a h
    exact he.bind fun a' ha' => ih (hfit a' ha')

end EscapeRoom.Report
