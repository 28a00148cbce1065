import Mathlib.Logic.Basic
import EscapeRoom.Command.Session

/-!
# Runs of actions

An action that is done to its end is done step by step: a sequence of actions ends if each of them ends in
the session that the one before it leaves.
-/

namespace EscapeRoom

theorem except_bind_eq_ok {ε α β : Type} {x : Except ε α} {f : α → Except ε β} {b : β} :
    (x >>= f) = .ok b ↔ ∃ a, x = .ok a ∧ f a = .ok b := by
  cases x with
  | error e => simp [bind, Except.bind]
  | ok a => simp [bind, Except.bind]

theorem except_mapError_eq_ok {ε ε' α : Type} {r : Except ε α} {f : ε → ε'} {a : α} :
    r.mapError f = .ok a ↔ r = .ok a := by
  cases r with
  | error e => exact iff_of_false nofun nofun
  | ok b =>
    show (Except.ok b : Except ε' α) = .ok a ↔ Except.ok b = .ok a
    rw [Except.ok.injEq, Except.ok.injEq]

theorem except_toOption_eq_some {ε α : Type} {r : Except ε α} {a : α} : r.toOption = some a ↔ r = .ok a := by
  cases r with
  | error e => simp [Except.toOption]
  | ok b => simp [Except.toOption]

theorem except_ok_bind {ε α β : Type} (a : α) (f : α → Except ε β) : (Except.ok a >>= f) = f a := rfl

namespace Act

variable {α β : Type} {s s' : Session} {a : α} {f : α → Act β} {m : Act α} {path : String} {u : Unit}

/-- How an action ends, and the session that it leaves. -/
def outcome (m : Act α) (s : Session) : Except Ending α × Session :=
  m.run.run s

/-- The action is done to its end, with a result and the session that it leaves. -/
def Ends (m : Act α) (s : Session) (a : α) (s' : Session) : Prop :=
  m.outcome s = (.ok a, s')

theorem Ends.unique {a b : α} {s₁ s₂ : Session} (ha : m.Ends s a s₁) (hb : m.Ends s b s₂) : a = b ∧ s₁ = s₂ := by
  rw [Ends, ha] at hb
  simpa using hb

theorem ends_outcome (h : (m.outcome s).1 = .ok a) : m.Ends s a (m.outcome s).2 :=
  Prod.ext h rfl

theorem outcome_bind_of_ends (h : m.Ends s a s') : (m >>= f).outcome s = (f a).outcome s' := by
  change ExceptT.bindCont f (m.outcome s).1 (m.outcome s).2 = _
  rw [h]
  rfl

theorem outcome_bind_of_error {e : Ending} (h : m.outcome s = (.error e, s')) :
    (m >>= f).outcome s = (.error e, s') := by
  change ExceptT.bindCont f (m.outcome s).1 (m.outcome s).2 = _
  rw [h]
  rfl

@[simp] theorem ends_pure {a b : α} : (pure a : Act α).Ends s b s' ↔ a = b ∧ s = s' := by
  change (Except.ok a, s) = (Except.ok b, s') ↔ _
  simp

@[simp] theorem ends_bind {b : β} {s'' : Session} :
    (m >>= f).Ends s b s'' ↔ ∃ a s', m.Ends s a s' ∧ (f a).Ends s' b s'' := by
  constructor
  · intro h
    rcases hm : m.outcome s with ⟨e | a, s'⟩
    · rw [Ends, outcome_bind_of_error hm] at h
      cases h
    · refine ⟨a, s', hm, ?_⟩
      rwa [Ends, outcome_bind_of_ends hm] at h
  · rintro ⟨a, s', hm, hf⟩
    rw [Ends, outcome_bind_of_ends hm]
    exact hf

@[simp] theorem not_ends_exit {code : Int} : ¬ (exit code : Act α).Ends s a s' := by
  intro h
  cases h

@[simp] theorem not_ends_crash {c : Crash} : ¬ (crash c : Act α).Ends s a s' := by
  intro h
  cases h

@[simp] theorem not_ends_fail {line : String} : ¬ (fail line : Act α).Ends s a s' := by
  simp [fail]

@[simp] theorem ends_tree {t : FileTree} : tree.Ends s t s' ↔ s.tree = t ∧ s = s' := by
  change (Except.ok s.tree, s) = (Except.ok t, s') ↔ _
  simp

@[simp] theorem ends_root : root.Ends s path s' ↔ s.tree.rootPath = path ∧ s = s' := by
  simp only [root, ends_bind, ends_tree, ends_pure]
  constructor
  · rintro ⟨t, s₁, ⟨rfl, rfl⟩, rfl, rfl⟩
    exact ⟨rfl, rfl⟩
  · rintro ⟨rfl, rfl⟩
    exact ⟨_, _, ⟨rfl, rfl⟩, rfl, rfl⟩

@[simp] theorem ends_print {line : String} :
    (print line).Ends s u s' ↔ { s with log := s.log ++ [.out line] } = s' := by
  change (Except.ok (), { s with log := s.log ++ [.out line] }) = (Except.ok u, s') ↔ _
  simp

@[simp] theorem ends_orCrash {r : Except Crash α} : (orCrash r).Ends s a s' ↔ r = .ok a ∧ s = s' := by
  cases r with
  | ok b => simp [orCrash]
  | error c => simp [orCrash]

theorem ends_tryWrite {content : Content} {r : Except FileError Unit} : (tryWrite path content).Ends s r s' ↔
      (∃ t, s.tree.write path content = .ok t ∧ r = .ok () ∧ s' = { s with tree := t }) ∨
        ∃ e, s.tree.write path content = .error e ∧ r = .error e ∧ s' = s := by
  simp only [tryWrite, ends_bind, ends_tree]
  constructor
  · rintro ⟨t, s₁, ⟨rfl, rfl⟩, h⟩
    cases hw : s.tree.write path content with
    | error e =>
      rw [hw] at h
      obtain ⟨rfl, rfl⟩ := ends_pure.mp h
      exact .inr ⟨e, rfl, rfl, rfl⟩
    | ok t =>
      rw [hw] at h
      cases h
      exact .inl ⟨t, rfl, rfl, rfl⟩
  · rintro (⟨t, hw, rfl, rfl⟩ | ⟨e, hw, rfl, rfl⟩)
    · refine ⟨_, _, ⟨rfl, rfl⟩, ?_⟩
      rw [hw]
      rfl
    · refine ⟨_, _, ⟨rfl, rfl⟩, ?_⟩
      rw [hw]
      rfl

theorem ends_write {content : Content} : (write path content).Ends s u s' ↔
      ∃ t, s.tree.write path content = .ok t ∧ s' = { s with tree := t } := by
  simp only [write, ends_bind, ends_tryWrite]
  constructor
  · rintro ⟨r, s₁, ⟨t, hw, rfl, rfl⟩ | ⟨e, hw, rfl, rfl⟩, h⟩
    · exact ⟨t, hw, (ends_pure.mp h).2.symm⟩
    · exact (not_ends_crash h).elim
  · rintro ⟨t, hw, rfl⟩
    exact ⟨_, _, .inl ⟨t, hw, rfl, rfl⟩, ends_pure.mpr ⟨rfl, rfl⟩⟩

theorem ends_makeDirectories : (makeDirectories path).Ends s u s' ↔
      ∃ t, s.tree.makeDirectories path = .ok t ∧ s' = { s with tree := t } := by
  simp only [makeDirectories, ends_bind, ends_tree]
  constructor
  · rintro ⟨t, s₁, ⟨rfl, rfl⟩, h⟩
    cases hm : s.tree.makeDirectories path with
    | error e =>
      rw [hm] at h
      exact (not_ends_crash h).elim
    | ok t =>
      rw [hm] at h
      cases h
      exact ⟨t, rfl, rfl⟩
  · rintro ⟨t, hm, rfl⟩
    refine ⟨_, _, ⟨rfl, rfl⟩, ?_⟩
    rw [hm]
    rfl

theorem ends_arguments {u : Usage} {words : List String} {a : Arguments} :
    (arguments u words).Ends s a s' ↔ u.read words = .ok a ∧ s = s' := by
  unfold arguments
  split
  · rename_i b hb
    simp [hb]
  · rename_i hb
    simp [hb]
  · rename_i e hb
    simp [hb]

end Act

end EscapeRoom
