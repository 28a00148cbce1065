import Mathlib.Data.List.Basic
import EscapeRoom.Game.Inventory

/-!
# Giving and taking items

What giving and taking an item does to the list of items, without reference to positions.
-/

namespace EscapeRoom.Inventory

/-- The list after an item is given: it comes last, unless it is there or there is no place. -/
def Given (item : UInt8) (items items' : List UInt8) : Prop :=
  if item ∈ items ∨ items.length = 8 then items' = items else items' = items ++ [item]

/-- The list after an item is taken away: the last one comes into the place of its first occurrence. -/
inductive Taken (item : UInt8) : List UInt8 → List UInt8 → Prop
  | absent {items : List UInt8} : item ∉ items → Taken item items items
  | last {before : List UInt8} : item ∉ before → Taken item (before ++ [item]) before
  | inner {before middle : List UInt8} {last : UInt8} : item ∉ before →
      Taken item (before ++ item :: (middle ++ [last])) (before ++ last :: middle)

theorem ext_items {inv inv' : Inventory} (h : inv.items = inv'.items) : inv = inv' := by
  cases inv
  cases inv'
  cases h
  rfl

theorem given_iff (inv inv' : Inventory) (item : UInt8) :
    Given item inv.items inv'.items ↔ inv' = inv.add item := by
  have hle := inv.length_le
  have hf : (inv.has item = true ∨ capacity ≤ inv.items.length) ↔
      (item ∈ inv.items ∨ inv.items.length = 8) := by
    rw [has, List.contains_iff_mem, capacity]
    exact or_congr Iff.rfl (by omega)
  unfold Given add
  by_cases h : item ∈ inv.items ∨ inv.items.length = 8
  · rw [if_pos h, dif_pos (hf.mpr h)]
    exact ⟨ext_items, fun he => he ▸ rfl⟩
  · rw [if_neg h, dif_neg (mt hf.mp h)]
    exact ⟨fun he => ext_items he, fun he => he ▸ rfl⟩

theorem findIdx?_first {item : UInt8} {before : List UInt8} (h : item ∉ before) (rest : List UInt8) :
    (before ++ item :: rest).findIdx? (· == item) = some before.length := by
  induction before with
  | nil => simp [List.findIdx?_cons]
  | cons x before ih =>
    rw [List.mem_cons, not_or] at h
    have hx : (x == item) = false := beq_false_of_ne (Ne.symm h.1)
    rw [List.cons_append, List.findIdx?_cons, hx, if_neg (by simp), ih h.2]
    rfl

theorem items_remove_of_taken {inv : Inventory} {item : UInt8} {items : List UInt8}
    (h : Taken item inv.items items) : (inv.remove item).items = items := by
  rcases inv with ⟨held, hle⟩
  unfold remove
  dsimp only at h ⊢
  cases h with
  | absent hnot =>
    have hn : items.findIdx? (· == item) = none := by
      rw [List.findIdx?_eq_none_iff]
      exact fun x hx => beq_false_of_ne fun he => hnot (he ▸ hx)
    split
    · rfl
    · rename_i i hi
      rw [hn] at hi
      simp at hi
  | last hnot =>
    have hf := findIdx?_first hnot []
    split
    · rename_i hn
      rw [hf] at hn
      simp at hn
    · rename_i i hi
      rw [hf, Option.some.injEq] at hi
      subst hi
      simp [closeGap]
  | @inner before middle last hnot =>
    have hf := findIdx?_first hnot (middle ++ [last])
    split
    · rename_i hn
      rw [hf] at hn
      simp at hn
    · rename_i i hi
      rw [hf, Option.some.injEq] at hi
      subst hi
      have hl : (before ++ item :: (middle ++ [last])).getLast? = some last := by
        rw [← List.cons_append, ← List.append_assoc, List.getLast?_concat]
      have hset : (before ++ item :: (middle ++ [last])).set before.length last =
          (before ++ last :: middle) ++ [last] := by simp
      simp only [closeGap, hl, hset, List.dropLast_concat]

theorem exists_taken (item : UInt8) (items : List UInt8) : ∃ items', Taken item items items' := by
  by_cases h : item ∈ items
  · obtain ⟨before, after, rfl, hnot⟩ := List.eq_append_cons_of_mem h
    rcases List.eq_nil_or_concat after with rfl | ⟨middle, last, rfl⟩
    · exact ⟨before, .last hnot⟩
    · rw [List.concat_eq_append]
      exact ⟨before ++ last :: middle, .inner hnot⟩
  · exact ⟨items, .absent h⟩

theorem taken_iff (inv inv' : Inventory) (item : UInt8) :
    Taken item inv.items inv'.items ↔ inv' = inv.remove item := by
  constructor
  · exact fun h => ext_items (items_remove_of_taken h).symm
  · rintro rfl
    obtain ⟨items, h⟩ := exists_taken item inv.items
    exact (items_remove_of_taken h).symm ▸ h

end EscapeRoom.Inventory
