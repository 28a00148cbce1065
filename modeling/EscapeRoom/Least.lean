/-!
# The first element of least cost

Searching a list for an element of least cost ends early when an element costs nothing. Of several
elements of least cost the first one is found.
-/

namespace EscapeRoom

variable {α : Type}

/-- The better of what was found before and the first element of least cost in a list. -/
def leastFrom (cost : α → Nat) (best : α) (bestCost : Nat) : List α → α × Nat
  | [] => (best, bestCost)
  | a :: rest =>
    if bestCost = 0 then (best, bestCost)
    else
      let c := cost a
      if c < bestCost then leastFrom cost a c rest else leastFrom cost best bestCost rest

def least? (cost : α → Nat) : List α → Option (α × Nat)
  | [] => none
  | a :: rest => some (leastFrom cost a (cost a) rest)

/-- An element of a list that costs less than those before it, and no more than those behind it. -/
def IsFirstLeast (cost : α → Nat) (l : List α) (a : α) : Prop :=
  ∃ before after, l = before ++ a :: after ∧ (∀ b ∈ before, cost a < cost b) ∧ ∀ b ∈ after, cost a ≤ cost b

theorem IsFirstLeast.mem {cost : α → Nat} {l : List α} {a : α} (h : IsFirstLeast cost l a) : a ∈ l := by
  obtain ⟨before, after, rfl, _⟩ := h
  simp

theorem IsFirstLeast.le {cost : α → Nat} {l : List α} {a b : α} (h : IsFirstLeast cost l a) (hb : b ∈ l) :
    cost a ≤ cost b := by
  obtain ⟨before, after, rfl, hbefore, hafter⟩ := h
  rcases List.mem_append.mp hb with hb | hb
  · exact Nat.le_of_lt (hbefore b hb)
  · rcases List.mem_cons.mp hb with rfl | hb
    · exact Nat.le_refl _
    · exact hafter b hb

/-- What was found before is kept if nothing costs less, and otherwise the first element of least cost is
found. -/
theorem leastFrom_spec (cost : α → Nat) (l : List α) (best : α) (bestCost : Nat) :
    (leastFrom cost best bestCost l = (best, bestCost) ∧ ∀ a ∈ l, bestCost ≤ cost a) ∨
      ∃ a, leastFrom cost best bestCost l = (a, cost a) ∧ cost a < bestCost ∧ IsFirstLeast cost l a := by
  induction l generalizing best bestCost with
  | nil => exact .inl ⟨rfl, by simp⟩
  | cons x rest ih =>
    by_cases hzero : bestCost = 0
    · exact .inl ⟨by simp [leastFrom, hzero], by simp [hzero]⟩
    by_cases hx : cost x < bestCost
    · -- The search goes on from `x`, which stays unless a later element costs less.
      have hstep : leastFrom cost best bestCost (x :: rest) = leastFrom cost x (cost x) rest := by
        simp [leastFrom, hzero, hx]
      rw [hstep]
      rcases ih x (cost x) with ⟨hfound, hrest⟩ | ⟨a, hfound, ha, before, after, rfl, hbefore, hafter⟩
      · exact .inr ⟨x, hfound, hx, [], rest, rfl, by simp, hrest⟩
      · refine .inr ⟨a, hfound, Nat.lt_trans ha hx, x :: before, after, rfl, ?_, hafter⟩
        exact List.forall_mem_cons.mpr ⟨ha, hbefore⟩
    · have hstep : leastFrom cost best bestCost (x :: rest) = leastFrom cost best bestCost rest := by
        simp [leastFrom, hzero, hx]
      have hle : bestCost ≤ cost x := Nat.le_of_not_lt hx
      rw [hstep]
      rcases ih best bestCost with ⟨hfound, hrest⟩ | ⟨a, hfound, ha, before, after, rfl, hbefore, hafter⟩
      · exact .inl ⟨hfound, List.forall_mem_cons.mpr ⟨hle, hrest⟩⟩
      · refine .inr ⟨a, hfound, ha, x :: before, after, rfl, ?_, hafter⟩
        exact List.forall_mem_cons.mpr ⟨Nat.lt_of_lt_of_le ha hle, hbefore⟩

theorem leastFrom_of_lt {cost : α → Nat} {l : List α} {b : α} (best : α) {bestCost : Nat} (hb : b ∈ l)
    (h : cost b < bestCost) :
    ∃ a, leastFrom cost best bestCost l = (a, cost a) ∧ IsFirstLeast cost l a := by
  rcases leastFrom_spec cost l best bestCost with ⟨_, hle⟩ | ⟨a, hfound, _, hleast⟩
  · exact absurd h (Nat.not_lt.mpr (hle b hb))
  · exact ⟨a, hfound, hleast⟩

/-- The search in a list that is not empty finds its first element of least cost. -/
theorem leastFrom_head (cost : α → Nat) (b : α) (l : List α) :
    ∃ a, leastFrom cost b (cost b) l = (a, cost a) ∧ IsFirstLeast cost (b :: l) a := by
  rcases leastFrom_spec cost l b (cost b) with ⟨hfound, hle⟩ | ⟨a, hfound, ha, before, after, rfl, hbefore, hafter⟩
  · exact ⟨b, hfound, [], l, rfl, by simp, hle⟩
  · exact ⟨a, hfound, b :: before, after, rfl, List.forall_mem_cons.mpr ⟨ha, hbefore⟩, hafter⟩

end EscapeRoom
