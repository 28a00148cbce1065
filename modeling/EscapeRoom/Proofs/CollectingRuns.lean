import Mathlib.Data.List.Forall2
import EscapeRoom.Report

/-!
# Runs in collecting mode

In collecting mode a computation goes on after what it reports, so it ends with a value unless it breaks off. A
sequence of computations breaks off where one of its parts does, after the parts before it have ended with values.
-/

namespace EscapeRoom.Report

variable {ι χ α β : Type} {P : α → Prop} {a : α} {b : β} {c : χ} {f : α → Report ι χ β} {m : Report ι χ α} {xs : List α}

/-- The computation ends with a value, whatever it reports. -/
def Returns (m : Report ι χ α) (a : α) : Prop :=
  (m.run .collecting).1 = .ok a

def BreaksOff (m : Report ι χ α) (c : χ) : Prop :=
  (m.run .collecting).1 = .error (.broken c)

instance [DecidableEq χ] (m : Report ι χ α) (c : χ) : Decidable (m.BreaksOff c) :=
  match h : (m.run .collecting).1 with
  | .ok _ => isFalse (by simp [BreaksOff, h])
  | .error (.issue _) => isFalse (by simp [BreaksOff, h])
  | .error (.broken c') => decidable_of_iff (c' = c) (by simp [BreaksOff, h])

theorem fst_runFrom (m : Report ι χ α) (log : List ι) : (m.runFrom .collecting log).1 = (m.run .collecting).1 := by
  obtain ⟨outcome, notes, hm⟩ := m.lawful
  rw [run, hm.collecting, hm.collecting]

theorem fst_run_bind (m : Report ι χ α) (f : α → Report ι χ β) :
    ((m >>= f).run .collecting).1 = (m.run .collecting).1.bind fun a => ((f a).run .collecting).1 := by
  show ((m >>= f).runFrom .collecting []).1 = (m.runFrom .collecting []).1.bind fun a => ((f a).run .collecting).1
  rw [runFrom_bind]
  rcases m.runFrom .collecting [] with ⟨e | a, log⟩
  · rfl
  · exact (f a).fst_runFrom log

theorem returns_or_breaksOff (m : Report ι χ α) : (∃ a, m.Returns a) ∨ ∃ c, m.BreaksOff c := by
  obtain ⟨outcome, notes, hm⟩ := m.lawful
  have hrun : (m.run .collecting).1 = outcome := congrArg Prod.fst (hm.collecting [])
  cases outcome with
  | ok a => exact .inl ⟨a, hrun⟩
  | error e =>
    cases e with
    | issue i => exact absurd rfl (hm.not_issue i)
    | broken c => exact .inr ⟨c, hrun⟩

theorem Returns.not_breaksOff (h : m.Returns a) (c : χ) : ¬m.BreaksOff c := by
  intro hc
  rw [BreaksOff, h] at hc
  cases hc

theorem Returns.unique {a b : α} (ha : m.Returns a) (hb : m.Returns b) : a = b := by
  rw [Returns, ha] at hb
  exact Except.ok.inj hb

theorem exists_returns_iff : (∃ a, m.Returns a) ↔ ∀ c, ¬m.BreaksOff c := by
  constructor
  · rintro ⟨a, ha⟩ c
    exact ha.not_breaksOff c
  · intro h
    refine m.returns_or_breaksOff.resolve_right ?_
    rintro ⟨c, hc⟩
    exact h c hc

@[simp] theorem returns_pure {a b : α} : (pure a : Report ι χ α).Returns b ↔ a = b := by
  simp [Returns, run]

@[simp] theorem returns_report (i : ι) (u : Unit) : (report i : Report ι χ Unit).Returns u := rfl

@[simp] theorem not_returns_breakOff (c : χ) (a : α) : ¬(breakOff c : Report ι χ α).Returns a := by
  simp [Returns, run, breakOff]

@[simp] theorem returns_reportIf {b : Bool} {i : ι} (u : Unit) : (reportIf b i : Report ι χ Unit).Returns u := by
  cases b <;> rfl

@[simp] theorem returns_bind : (m >>= f).Returns b ↔ ∃ a, m.Returns a ∧ (f a).Returns b := by
  unfold Returns
  rw [fst_run_bind]
  cases (m.run .collecting).1 with
  | error e => simp [Except.bind]
  | ok a => simp [Except.bind]

@[simp] theorem not_breaksOff_pure (a : α) (c : χ) : ¬(pure a : Report ι χ α).BreaksOff c := by
  simp [BreaksOff, run]

@[simp] theorem not_breaksOff_report (i : ι) (c : χ) : ¬(report i : Report ι χ Unit).BreaksOff c :=
  (returns_report i ()).not_breaksOff c

@[simp] theorem not_breaksOff_reportIf (b : Bool) (i : ι) (c : χ) :
    ¬(reportIf b i : Report ι χ Unit).BreaksOff c :=
  (returns_reportIf ()).not_breaksOff c

@[simp] theorem breaksOff_breakOff {c c' : χ} : (breakOff c : Report ι χ α).BreaksOff c' ↔ c = c' := by
  simp [BreaksOff, run, breakOff]

@[simp] theorem breaksOff_bind : (m >>= f).BreaksOff c ↔ m.BreaksOff c ∨ ∃ a, m.Returns a ∧ (f a).BreaksOff c := by
  unfold BreaksOff Returns
  rw [fst_run_bind]
  cases (m.run .collecting).1 with
  | error e => simp [Except.bind]
  | ok a => simp [Except.bind]

@[simp] theorem returns_map {f : α → β} : (f <$> m).Returns b ↔ ∃ a, m.Returns a ∧ f a = b := by
  rw [map_eq_pure_bind, returns_bind]
  simp only [returns_pure]

@[simp] theorem breaksOff_map {f : α → β} : (f <$> m).BreaksOff c ↔ m.BreaksOff c := by
  rw [map_eq_pure_bind, breaksOff_bind]
  simp

theorem BreaksOff.iff_eq {c c' : χ} (h : m.BreaksOff c) : m.BreaksOff c' ↔ c = c' := by
  rw [BreaksOff, h]
  simp

theorem BreaksOff.bind (h : m.BreaksOff c) (f : α → Report ι χ β) : (m >>= f).BreaksOff c :=
  breaksOff_bind.mpr (.inl h)

theorem Returns.breaksOff_bind (h : m.Returns a) : (m >>= f).BreaksOff c ↔ (f a).BreaksOff c := by
  unfold BreaksOff
  rw [fst_run_bind, h]
  rfl

/-- Two computations break off where the first does, or, if it does not, where the second does, as long as its value
does not matter for that. -/
theorem breaksOff_bind_of_forall {P : Prop}
    (hf : ∀ a, (f a).BreaksOff c ↔ P) : (m >>= f).BreaksOff c ↔ m.BreaksOff c ∨ (∀ c', ¬m.BreaksOff c') ∧ P := by
  rw [breaksOff_bind, ← exists_returns_iff]
  simp only [hf, exists_and_right]

theorem breaksOff_bind_right {P : Prop}
    (hm : ∀ c, ¬m.BreaksOff c) (hf : ∀ a, (f a).BreaksOff c ↔ P) : (m >>= f).BreaksOff c ↔ P := by
  rw [breaksOff_bind_of_forall hf]
  simp [hm]

theorem breaksOff_bind_left (hf : ∀ a, ¬(f a).BreaksOff c) : (m >>= f).BreaksOff c ↔ m.BreaksOff c := by
  rw [breaksOff_bind_of_forall fun a => iff_false_intro (hf a)]
  simp

/-- Two computations that break off in the same way do so if one of them does. -/
theorem breaksOff_bind_or {c c₀ : χ} {P Q : Prop}
    (hm : ∀ c, m.BreaksOff c ↔ c = c₀ ∧ P) (hf : ∀ a, (f a).BreaksOff c ↔ c = c₀ ∧ Q) :
    (m >>= f).BreaksOff c ↔ c = c₀ ∧ (P ∨ Q) := by
  rw [breaksOff_bind_of_forall hf]
  by_cases hp : P
  · simp [hm, hp]
  · simp [hm, hp]

theorem breaksOff_foldlM {f : β → α → Report ι χ β} : (xs.foldlM f b).BreaksOff c ↔
      ∃ done x rest a, xs = done ++ x :: rest ∧ (done.foldlM f b).Returns a ∧ (f a x).BreaksOff c := by
  induction xs generalizing b with
  | nil => simp
  | cons x xs ih =>
    rw [List.foldlM_cons, breaksOff_bind]
    constructor
    · rintro (h | ⟨a, ha, h⟩)
      · exact ⟨[], x, xs, b, rfl, returns_pure.mpr rfl, h⟩
      · obtain ⟨done, y, rest, a', rfl, hdo, hy⟩ := ih.mp h
        refine ⟨x :: done, y, rest, a', rfl, ?_, hy⟩
        rw [List.foldlM_cons, returns_bind]
        exact ⟨a, ha, hdo⟩
    · rintro ⟨done, y, rest, a, he, hdo, hy⟩
      cases done with
      | nil =>
        obtain ⟨rfl, rfl⟩ := List.cons.inj he
        rw [List.foldlM_nil, returns_pure] at hdo
        exact .inl (hdo ▸ hy)
      | cons z done =>
        obtain ⟨rfl, rfl⟩ := List.cons.inj he
        rw [List.foldlM_cons, returns_bind] at hdo
        obtain ⟨b', hb', hdo⟩ := hdo
        exact .inr ⟨b', hb', ih.mpr ⟨done, y, rest, a, rfl, hdo, hy⟩⟩

theorem not_breaksOff_foldlM {f : β → α → Report ι χ β} (h : ∀ b x c, ¬(f b x).BreaksOff c) (xs : List α) (b : β)
    (c : χ) : ¬(xs.foldlM f b).BreaksOff c := by
  rw [breaksOff_foldlM]
  rintro ⟨_, x, _, a, _, _, hx⟩
  exact h a x c hx

theorem Returns.foldlM_induction {f : β → α → Report ι χ β} {P : List α → β → Prop} {b b' : β}
    (h : (xs.foldlM f b).Returns b') (init : P [] b)
    (step : ∀ done x b b', P done b → (f b x).Returns b' → P (done ++ [x]) b') : P xs b' := by
  suffices hs : ∀ done b, P done b → (xs.foldlM f b).Returns b' → P (done ++ xs) b' from hs [] b init h
  clear h init
  induction xs with
  | nil =>
    intro done b hp hy
    rw [List.foldlM_nil, returns_pure] at hy
    rw [List.append_nil]
    exact hy ▸ hp
  | cons x xs ih =>
    intro done b hp hy
    rw [List.foldlM_cons, returns_bind] at hy
    obtain ⟨b₁, hb₁, hy⟩ := hy
    rw [List.append_cons]
    exact ih (done ++ [x]) b₁ (step done x b b₁ hp hb₁) hy

/-- A fold that keeps an invariant breaks off, always in the same way, exactly if an element makes its step do so. -/
theorem breaksOff_foldlM_iff {f : β → α → Report ι χ β} {P : List α → β → Prop} {Q : α → Prop} {c₀ : χ} (init : P [] b)
    (step : ∀ done x rest b, xs = done ++ x :: rest → P done b →
      (∀ c, (f b x).BreaksOff c ↔ c = c₀ ∧ Q x) ∧ ∀ b', (f b x).Returns b' → P (done ++ [x]) b') :
    (∀ c, (xs.foldlM f b).BreaksOff c ↔ c = c₀ ∧ ∃ x ∈ xs, Q x) ∧ ∀ b', (xs.foldlM f b).Returns b' → P xs b' := by
  suffices hs : ∀ done rest b, xs = done ++ rest → P done b →
      (∀ c, (rest.foldlM f b).BreaksOff c ↔ c = c₀ ∧ ∃ x ∈ rest, Q x) ∧
        ∀ b', (rest.foldlM f b).Returns b' → P xs b' from hs [] xs b rfl init
  intro done rest
  induction rest generalizing done with
  | nil =>
    intro b he hp
    rw [List.append_nil] at he
    refine ⟨by simp, fun b' hb' => ?_⟩
    rw [List.foldlM_nil, returns_pure] at hb'
    exact hb' ▸ he ▸ hp
  | cons x rest ih =>
    intro b he hp
    obtain ⟨hb, hr⟩ := step done x rest b he hp
    have hre : ∀ b₁, (f b x).Returns b₁ → (∀ c, (rest.foldlM f b₁).BreaksOff c ↔ c = c₀ ∧ ∃ x ∈ rest, Q x) ∧
        ∀ b', (rest.foldlM f b₁).Returns b' → P xs b' :=
      fun b₁ hb₁ => ih (done ++ [x]) b₁ (by simp [he]) (hr b₁ hb₁)
    constructor
    · intro c
      rw [List.foldlM_cons]
      by_cases hx : Q x
      · have hc₀ := (hb c₀).mpr ⟨rfl, hx⟩
        rw [(hc₀.bind _).iff_eq]
        simp [hx, eq_comm]
      · obtain ⟨b₁, hb₁⟩ := exists_returns_iff.mpr fun c hc => hx ((hb c).mp hc).2
        rw [hb₁.breaksOff_bind, (hre b₁ hb₁).1 c]
        simp [hx]
    · intro b' hb'
      rw [List.foldlM_cons, returns_bind] at hb'
      obtain ⟨b₁, hb₁, hb'⟩ := hb'
      exact (hre b₁ hb₁).2 b' hb'

theorem not_breaksOff_forM {f : α → Report ι χ PUnit} (h : ∀ x c, ¬(f x).BreaksOff c) (xs : List α) (c : χ) :
    ¬(xs.forM f).BreaksOff c := by
  rw [List.forM_eq_forM]
  induction xs with
  | nil => simp
  | cons x xs ih =>
    rw [List.forM_cons, breaksOff_bind]
    rintro (hx | ⟨⟨⟩, -, hxs⟩)
    · exact h x c hx
    · exact ih hxs

/-- The computation ends with a value that has a property, whatever it reports. -/
def Ends (m : Report ι χ α) (P : α → Prop) : Prop :=
  ∃ a, m.Returns a ∧ P a

theorem Ends.not_breaksOff (h : m.Ends P) (c : χ) : ¬m.BreaksOff c := by
  obtain ⟨a, ha, -⟩ := h
  exact ha.not_breaksOff c

theorem Ends.mono {P Q : α → Prop} (h : m.Ends P) (himp : ∀ a, P a → Q a) : m.Ends Q := by
  obtain ⟨a, ha, hp⟩ := h
  exact ⟨a, ha, himp a hp⟩

theorem Ends.holds (h : m.Ends P) (ha : m.Returns a) : P a := by
  obtain ⟨a', ha', hp⟩ := h
  exact ha.unique ha' ▸ hp

theorem ends_pure (h : P a) : (pure a : Report ι χ α).Ends P :=
  ⟨a, returns_pure.mpr rfl, h⟩

theorem Ends.bind {Q : β → Prop} (h : m.Ends P) (hf : ∀ a, P a → (f a).Ends Q) : (m >>= f).Ends Q := by
  obtain ⟨a, ha, hp⟩ := h
  obtain ⟨b, hb, hq⟩ := hf a hp
  exact ⟨b, returns_bind.mpr ⟨a, ha, hb⟩, hq⟩

theorem Returns.ends_bind {Q : β → Prop} (h : m.Returns a) (hf : (f a).Ends Q) : (m >>= f).Ends Q := by
  obtain ⟨b, hb, hq⟩ := hf
  exact ⟨b, returns_bind.mpr ⟨a, h, hb⟩, hq⟩

/-- What follows a computation that ends with a known property breaks off where it does from such values. -/
theorem Ends.breaksOff_bind {Q : Prop} (h : m.Ends P)
    (hf : ∀ a, P a → ((f a).BreaksOff c ↔ Q)) : (m >>= f).BreaksOff c ↔ Q := by
  obtain ⟨a, ha, hp⟩ := h
  rw [ha.breaksOff_bind, hf a hp]

theorem Ends.mapM {R : α → β → Prop} (h : ∀ x ∈ xs, (f x).Ends (R x)) : (xs.mapM f).Ends (List.Forall₂ R xs) := by
  induction xs with
  | nil => exact ends_pure .nil
  | cons x xs ih =>
    rw [List.forall_mem_cons] at h
    rw [List.mapM_cons]
    exact h.1.bind fun y hy => (ih h.2).bind fun ys hys => ends_pure (.cons hy hys)

theorem returns_mapM {ys : List β} : (xs.mapM f).Returns ys ↔ List.Forall₂ (fun x y => (f x).Returns y) xs ys := by
  induction xs generalizing ys with
  | nil => simp [eq_comm]
  | cons x xs ih =>
    simp only [List.mapM_cons, returns_bind, returns_pure, ih, List.forall₂_cons_left_iff]
    constructor
    · rintro ⟨y, hy, ys, hys, rfl⟩
      exact ⟨y, ys, hy, hys, rfl⟩
    · rintro ⟨y, ys, hy, hys, rfl⟩
      exact ⟨y, hy, ys, hys, rfl⟩

theorem returns_mapM_map {g : α → β} (h : ∀ x ∈ xs, (f x).Returns (g x)) : (xs.mapM f).Returns (xs.map g) := by
  rw [returns_mapM, List.forall₂_map_right_iff, List.forall₂_same]
  exact h

theorem Ends.foldlM {f : β → α → Report ι χ β} {P : List α → β → Prop} (init : P [] b)
    (step : ∀ done x b, P done b → (f b x).Ends (P (done ++ [x]))) : (xs.foldlM f b).Ends (P xs) := by
  suffices hs : ∀ done b, P done b → (xs.foldlM f b).Ends fun b' => P (done ++ xs) b' from hs [] b init
  clear init
  induction xs with
  | nil =>
    intro done b hp
    rw [List.append_nil]
    exact ends_pure hp
  | cons x xs ih =>
    intro done b hp
    rw [List.foldlM_cons, List.append_cons]
    exact (step done x b hp).bind fun b' hb' => ih (done ++ [x]) b' hb'

end EscapeRoom.Report
