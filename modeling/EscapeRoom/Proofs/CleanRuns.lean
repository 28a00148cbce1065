import Mathlib.Data.List.Forall2
import EscapeRoom.Report

/-!
# Runs without issues

A computation yields a value if in collecting mode it ends with that value and notes nothing. Because
the issues of a computation do not depend on what was noted before it, a sequence of computations yields
a value exactly if each of its parts does.
-/

namespace EscapeRoom

variable {α β : Type}

theorem forall₂_filterMap_id {R : α → Option β → Prop} {S : α → β → Prop}
    (hRS : ∀ x y, R x y → ∃ z, y = some z ∧ S x z) {xs : List α} {ys : List (Option β)}
    (h : List.Forall₂ R xs ys) : List.Forall₂ S xs (ys.filterMap id) := by
  induction h with
  | nil => exact .nil
  | cons hxy _ ih =>
    obtain ⟨z, rfl, hz⟩ := hRS _ _ hxy
    exact .cons hz ih

theorem eq_map_of_forall₂ {f : α → β} {P : α → Prop} {xs : List α} {ys : List β}
    (h : List.Forall₂ (fun x y => y = f x ∧ P x) xs ys) : ys = xs.map f ∧ ∀ x ∈ xs, P x := by
  induction h with
  | nil => simp
  | cons hxy _ ih =>
    refine ⟨?_, List.forall_mem_cons.mpr ⟨hxy.2, ih.2⟩⟩
    rw [hxy.1, ih.1, List.map_cons]

theorem exists_getElem?_of_forall₂ {R : α → β → Prop} {xs : List α} {ys : List β}
    (h : List.Forall₂ R xs ys) {i : Nat} {x : α} (hx : xs[i]? = some x) : ∃ y, ys[i]? = some y ∧ R x y := by
  induction h generalizing i with
  | nil => simp at hx
  | cons hxy _ ih =>
    cases i with
    | zero =>
      rw [List.getElem?_cons_zero, Option.some.injEq] at hx
      exact ⟨_, rfl, hx ▸ hxy⟩
    | succ i =>
      rw [List.getElem?_cons_succ] at hx ⊢
      exact ih hx

theorem exists_map_of_forall₂ {α β γ : Type} {S : α → γ → Prop} {f : γ → β} {xs : List α}
    {ys : List β} (h : List.Forall₂ (fun x y => ∃ z, S x z ∧ y = f z) xs ys) :
    ∃ zs, List.Forall₂ S xs zs ∧ ys = zs.map f := by
  induction h with
  | nil => exact ⟨[], .nil, rfl⟩
  | cons hxy _ ih =>
    obtain ⟨z, hz, rfl⟩ := hxy
    obtain ⟨zs, hzs, rfl⟩ := ih
    exact ⟨z :: zs, .cons hz hzs, rfl⟩

theorem forall_mem_of_forall₂ {R : α → β → Prop} {P : β → Prop} {xs : List α}
    {ys : List β} (h : List.Forall₂ R xs ys) (hP : ∀ x ∈ xs, ∀ y, R x y → P y) : ∀ y ∈ ys, P y := by
  induction h with
  | nil => simp
  | cons hxy _ ih =>
    rw [List.forall_mem_cons] at hP ⊢
    exact ⟨hP.1 _ hxy, ih hP.2⟩

namespace Report

variable {ι χ α β : Type} {b : β} {f : β → α → Report ι χ β} {m : Report ι χ α} {xs : List α}

/-- The computation ends with a value and notes no issue. -/
def Yields (m : Report ι χ α) (a : α) : Prop :=
  m.run .collecting = (.ok a, [])

instance [DecidableEq ι] [DecidableEq χ] [DecidableEq α] (m : Report ι χ α) (a : α) :
    Decidable (m.Yields a) :=
  inferInstanceAs (Decidable (m.run .collecting = (.ok a, [])))

/-- Whether the computation notes no issue and ends with a value that passes a check. -/
def endsWith (m : Report ι χ α) (p : α → Bool) : Bool :=
  match m.run .collecting with
  | (.ok a, []) => p a
  | _ => false

theorem exists_yields_of_endsWith {p : α → Bool} (h : m.endsWith p = true) : ∃ a, m.Yields a ∧ p a = true := by
  unfold endsWith at h
  split at h
  · rename_i a ha
    exact ⟨a, ha, h⟩
  · simp at h

theorem yields_iff_comesTo {a : α} : m.Yields a ↔ ComesTo m.runFrom (.ok a) [] := by
  constructor
  · intro h
    obtain ⟨outcome, notes, hm⟩ := m.lawful
    have he : (outcome, [] ++ notes) = (.ok a, []) := (hm.collecting []).symm.trans h
    simp only [List.nil_append, Prod.mk.injEq] at he
    rcases he with ⟨rfl, rfl⟩
    exact hm
  · intro h
    exact h.collecting []

theorem Yields.unique {a b : α} (ha : m.Yields a) (hb : m.Yields b) : a = b := by
  have h : (Except.ok a, ([] : List ι)) = (.ok b, []) := ha.symm.trans hb
  simpa using h

@[simp] theorem yields_pure {a b : α} : (pure a : Report ι χ α).Yields b ↔ a = b := by
  simp [Yields, run]

@[simp] theorem not_yields_report (i : ι) (u : Unit) : ¬(report i : Report ι χ Unit).Yields u := by
  simp [Yields, run, report]

@[simp] theorem not_yields_breakOff (c : χ) (a : α) : ¬(breakOff c : Report ι χ α).Yields a := by
  simp [Yields, run, breakOff]

@[simp] theorem yields_bind {f : α → Report ι χ β} : (m >>= f).Yields b ↔ ∃ a, m.Yields a ∧ (f a).Yields b := by
  constructor
  · intro h
    obtain ⟨outcome, notes, hm⟩ := m.lawful
    have h : (m >>= f).runFrom .collecting [] = (.ok b, []) := h
    rw [runFrom_bind, hm.collecting] at h
    cases outcome with
    | error e => simp at h
    | ok a =>
      obtain ⟨outcome', notes', hf⟩ := (f a).lawful
      simp only [hf.collecting, List.nil_append, Prod.mk.injEq, List.append_eq_nil_iff] at h
      rcases h with ⟨rfl, rfl, rfl⟩
      exact ⟨a, yields_iff_comesTo.mpr hm, yields_iff_comesTo.mpr hf⟩
  · rintro ⟨a, hm, hf⟩
    have hm : m.runFrom .collecting [] = (.ok a, []) := hm
    show (m >>= f).runFrom .collecting [] = (.ok b, [])
    rw [runFrom_bind, hm]
    exact hf

@[simp] theorem yields_map {f : α → β} : (f <$> m).Yields b ↔ ∃ a, m.Yields a ∧ f a = b := by
  rw [map_eq_pure_bind, yields_bind]
  simp

@[simp] theorem yields_reportIf {b : Bool} {i : ι} {u : Unit} :
    (reportIf b i : Report ι χ Unit).Yields u ↔ b = false := by
  cases b <;> simp [reportIf]

theorem yields_mapM {f : α → Report ι χ β} {ys : List β} :
    (xs.mapM f).Yields ys ↔ List.Forall₂ (fun x y => (f x).Yields y) xs ys := by
  induction xs generalizing ys with
  | nil =>
    rw [List.mapM_nil, yields_pure, List.forall₂_nil_left_iff]
    exact eq_comm
  | cons x xs ih =>
    rw [List.mapM_cons, yields_bind]
    constructor
    · rintro ⟨y, hy, h⟩
      simp only [yields_bind, yields_pure] at h
      obtain ⟨zs, hzs, rfl⟩ := h
      exact .cons hy (ih.mp hzs)
    · rintro (_ | ⟨hy, hys⟩)
      refine ⟨_, hy, ?_⟩
      simp only [yields_bind, yields_pure]
      exact ⟨_, ih.mpr hys, rfl⟩

theorem yields_forM {f : α → Report ι χ PUnit} {u : PUnit} : (xs.forM f).Yields u ↔ ∀ x ∈ xs, (f x).Yields ⟨⟩ := by
  induction xs with
  | nil =>
    rw [List.forM_eq_forM, List.forM_nil, yields_pure]
    simp
  | cons x xs ih =>
    rw [List.forM_eq_forM] at ih ⊢
    rw [List.forM_cons, yields_bind, List.forall_mem_cons, ← ih]
    constructor
    · rintro ⟨⟨⟩, hx, hxs⟩
      exact ⟨hx, hxs⟩
    · rintro ⟨hx, hxs⟩
      exact ⟨⟨⟩, hx, hxs⟩

/-- What every step of a fold keeps holds at its end, if no step reports anything. -/
theorem Yields.foldlM_induction {P : List α → β → Prop} {b b' : β} (h : (xs.foldlM f b).Yields b') (init : P [] b)
    (step : ∀ done x rest b b', xs = done ++ x :: rest → P done b → (f b x).Yields b' →
      P (done ++ [x]) b') : P xs b' := by
  suffices hs : ∀ done rest b, xs = done ++ rest → P done b → (rest.foldlM f b).Yields b' → P xs b'
    from hs [] xs b rfl init h
  intro done rest
  induction rest generalizing done with
  | nil =>
    intro b he hp hy
    rw [List.foldlM_nil, yields_pure] at hy
    rw [List.append_nil] at he
    exact hy ▸ he ▸ hp
  | cons x rest ih =>
    intro b he hp hy
    rw [List.foldlM_cons, yields_bind] at hy
    obtain ⟨b₁, hb₁, hy⟩ := hy
    exact ih (done ++ [x]) b₁ (by simp [he]) (step done x rest b b₁ he hp hb₁) hy

/-- A fold reports nothing if no step does from what the steps before it keep. -/
theorem exists_yields_foldlM_of_step {P : List α → β → Prop}
    (init : P [] b) (step : ∀ done x rest b, xs = done ++ x :: rest → P done b →
      ∃ b', (f b x).Yields b' ∧ P (done ++ [x]) b') : ∃ b', (xs.foldlM f b).Yields b' ∧ P xs b' := by
  suffices hs : ∀ done rest b, xs = done ++ rest → P done b →
      ∃ b', (rest.foldlM f b).Yields b' ∧ P xs b' from hs [] xs b rfl init
  intro done rest
  induction rest generalizing done with
  | nil =>
    intro b he hp
    rw [List.append_nil] at he
    exact ⟨b, yields_pure.mpr rfl, he ▸ hp⟩
  | cons x rest ih =>
    intro b he hp
    obtain ⟨b₁, hb₁, hp₁⟩ := step done x rest b he hp
    obtain ⟨b', hb', hp'⟩ := ih (done ++ [x]) b₁ (by simp [he]) hp₁
    exact ⟨b', by rw [List.foldlM_cons, yields_bind]; exact ⟨b₁, hb₁, hb'⟩, hp'⟩

theorem yields_foldlM_of_forall {g : β → α → β}
    (h : ∀ x ∈ xs, ∀ b, (f b x).Yields (g b x)) : (xs.foldlM f b).Yields (xs.foldl g b) := by
  induction xs generalizing b with
  | nil => exact yields_pure.mpr rfl
  | cons x xs ih =>
    rw [List.forall_mem_cons] at h
    rw [List.foldlM_cons, yields_bind, List.foldl_cons]
    exact ⟨g b x, h.1 b, ih h.2⟩

theorem exists_yields_mapM {f : α → Report ι χ β} (h : ∀ x ∈ xs, ∃ y, (f x).Yields y) :
    ∃ ys, (xs.mapM f).Yields ys := by
  induction xs with
  | nil => exact ⟨[], yields_mapM.mpr .nil⟩
  | cons x xs ih =>
    rw [List.forall_mem_cons] at h
    obtain ⟨y, hy⟩ := h.1
    obtain ⟨ys, hys⟩ := ih h.2
    exact ⟨y :: ys, yields_mapM.mpr (.cons hy (yields_mapM.mp hys))⟩

theorem exists_yields_foldlM (h : ∀ x ∈ xs, ∀ b, ∃ b', (f b x).Yields b') : ∃ b', (xs.foldlM f b).Yields b' := by
  induction xs generalizing b with
  | nil => exact ⟨b, yields_pure.mpr rfl⟩
  | cons x xs ih =>
    rw [List.forall_mem_cons] at h
    obtain ⟨b₁, hb₁⟩ := h.1 b
    obtain ⟨b', hb'⟩ := ih h.2 (b := b₁)
    exact ⟨b', by rw [List.foldlM_cons, yields_bind]; exact ⟨b₁, hb₁, hb'⟩⟩

end Report

end EscapeRoom
