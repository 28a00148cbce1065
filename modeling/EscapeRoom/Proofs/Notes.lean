import EscapeRoom.Proofs.CleanRuns
import EscapeRoom.Proofs.CollectingRuns

/-!
# What a computation reports

A computation notes its issues in collecting mode, up to where it breaks off. What it reports, and how it may break
off, is what its parts report and how they may break off.
-/

namespace EscapeRoom.Report

variable {ι χ α β : Type}

def notes (m : Report ι χ α) : List ι :=
  (m.run .collecting).2

theorem yields_iff_notes {m : Report ι χ α} {a : α} : m.Yields a ↔ m.Returns a ∧ m.notes = [] := by
  rw [Yields, Returns, notes, Prod.ext_iff]

theorem snd_runFrom (m : Report ι χ α) (log : List ι) : (m.runFrom .collecting log).2 = log ++ m.notes := by
  obtain ⟨outcome, notes, hm⟩ := m.lawful
  rw [Report.notes, run, hm.collecting, hm.collecting, List.nil_append]

@[simp] theorem notes_pure (a : α) : (pure a : Report ι χ α).notes = [] := rfl

@[simp] theorem notes_report (i : ι) : (report i : Report ι χ Unit).notes = [i] := rfl

@[simp] theorem notes_breakOff (c : χ) : (breakOff c : Report ι χ α).notes = [] := rfl

theorem mem_notes_bind {m : Report ι χ α} {f : α → Report ι χ β} {i : ι} :
    i ∈ (m >>= f).notes ↔ i ∈ m.notes ∨ ∃ a, m.Returns a ∧ i ∈ (f a).notes := by
  show i ∈ ((m >>= f).runFrom .collecting []).2 ↔
    i ∈ (m.runFrom .collecting []).2 ∨ ∃ a, (m.runFrom .collecting []).1 = .ok a ∧ i ∈ (f a).notes
  rw [runFrom_bind]
  rcases m.runFrom .collecting [] with ⟨e | a, log⟩
  · simp
  · simp [snd_runFrom]

/-- All issues that a computation reports and all faults at which it may break off are among some. -/
structure Confined (m : Report ι χ α) (P : ι → Prop) (Q : χ → Prop) : Prop where
  notes : ∀ i ∈ m.notes, P i
  faults : ∀ c, m.BreaksOff c → Q c

section

variable {P : ι → Prop} {Q : χ → Prop} {m : Report ι χ α} {xs : List α}

@[simp] theorem confined_pure (a : α) : (pure a : Report ι χ α).Confined P Q :=
  ⟨by simp, by simp⟩

@[simp] theorem confined_report {i : ι} : (report i : Report ι χ Unit).Confined P Q ↔ P i :=
  ⟨fun h => h.notes i (by simp), fun h => ⟨by simpa using h, by simp⟩⟩

@[simp] theorem confined_breakOff {c : χ} : (breakOff c : Report ι χ α).Confined P Q ↔ Q c :=
  ⟨fun h => h.faults c (by simp), fun h => ⟨by simp, by rintro _ hc; exact breaksOff_breakOff.mp hc ▸ h⟩⟩

theorem confined_reportIf (b : Bool) {i : ι} (h : P i) : (reportIf b i : Report ι χ Unit).Confined P Q := by
  cases b
  · exact confined_pure ()
  · exact confined_report.mpr h

theorem Confined.bind {f : α → Report ι χ β} (hm : m.Confined P Q)
    (hf : ∀ a, (f a).Confined P Q) : (m >>= f).Confined P Q := by
  constructor
  · intro i hi
    rcases mem_notes_bind.mp hi with hi | ⟨a, _, hi⟩
    · exact hm.notes i hi
    · exact (hf a).notes i hi
  · intro c hc
    rcases breaksOff_bind.mp hc with hc | ⟨a, _, hc⟩
    · exact hm.faults c hc
    · exact (hf a).faults c hc

theorem Confined.map (hm : m.Confined P Q) (f : α → β) : (f <$> m).Confined P Q := by
  rw [map_eq_pure_bind]
  exact hm.bind fun a => confined_pure (f a)

theorem confined_mapM {f : α → Report ι χ β} (h : ∀ x ∈ xs, (f x).Confined P Q) : (xs.mapM f).Confined P Q := by
  induction xs with
  | nil => exact confined_pure []
  | cons x xs ih =>
    rw [List.forall_mem_cons] at h
    rw [List.mapM_cons]
    exact h.1.bind fun y => (ih h.2).bind fun ys => confined_pure _

theorem confined_foldlM {f : β → α → Report ι χ β} {b : β} (h : ∀ x ∈ xs, ∀ b, (f b x).Confined P Q) :
    (xs.foldlM f b).Confined P Q := by
  induction xs generalizing b with
  | nil => exact confined_pure b
  | cons x xs ih =>
    rw [List.forall_mem_cons] at h
    rw [List.foldlM_cons]
    exact (h.1 b).bind fun b' => ih h.2

theorem confined_forM {f : α → Report ι χ PUnit} (h : ∀ x ∈ xs, (f x).Confined P Q) : (xs.forM f).Confined P Q := by
  rw [List.forM_eq_forM]
  induction xs with
  | nil => exact confined_pure _
  | cons x xs ih =>
    rw [List.forall_mem_cons] at h
    rw [List.forM_cons]
    exact h.1.bind fun _ => ih h.2

theorem Confined.imp {P' : ι → Prop} {Q' : χ → Prop} (h : m.Confined P Q)
    (hP : ∀ i, P i → P' i) (hQ : ∀ c, Q c → Q' c) : m.Confined P' Q' :=
  ⟨fun i hi => hP i (h.notes i hi), fun c hc => hQ c (h.faults c hc)⟩

theorem Confined.exists_returns (h : m.Confined P fun _ => False) : ∃ a, m.Returns a :=
  exists_returns_iff.mpr fun c hc => h.faults c hc

end

end EscapeRoom.Report
