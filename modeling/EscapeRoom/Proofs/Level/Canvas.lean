import Mathlib.Data.List.Nodup
import Mathlib.Tactic.Ring
import EscapeRoom.Level.RoomMap

/-!
# Cells of a canvas

The positions of a rectangle are numbered row by row, each cell has a place of its own, and setting a cell
changes no other.
-/

namespace EscapeRoom.Level

variable {width height x y : Nat}

theorem mem_positions : (x, y) ∈ positions width height ↔ x < width ∧ y < height := by
  simp only [positions, List.mem_flatMap, List.mem_map, List.mem_range, Prod.mk.injEq]
  constructor
  · rintro ⟨y', hy, x', hx, rfl, rfl⟩
    exact ⟨hx, hy⟩
  · rintro ⟨hx, hy⟩
    exact ⟨y, hy, x, hx, rfl, rfl⟩

theorem positions_succ (width height : Nat) :
    positions width (height + 1) =
      positions width height ++ (List.range width).map fun x => (x, height) := by
  simp [positions, List.range_succ]

@[simp] theorem length_positions (width height : Nat) :
    (positions width height).length = width * height := by
  induction height with
  | zero => rfl
  | succ height ih =>
    rw [positions_succ, List.length_append, ih, List.length_map, List.length_range]
    ring

theorem nodup_positions (width height : Nat) : (positions width height).Nodup := by
  induction height with
  | zero => exact List.nodup_nil
  | succ height ih =>
    rw [positions_succ]
    refine List.Nodup.append ih (List.Nodup.map (fun a b h => (Prod.mk.inj h).1) List.nodup_range) ?_
    rintro ⟨x, y⟩ hold hnew
    obtain ⟨x', _, he⟩ := List.mem_map.mp hnew
    have hy := (mem_positions.mp hold).2
    have := (Prod.mk.inj he).2
    omega

theorem getElem?_positions (hx : x < width) (hy : y < height) :
    (positions width height)[y * width + x]? = some (x, y) := by
  induction height with
  | zero => omega
  | succ height ih =>
    rw [positions_succ]
    by_cases h : y < height
    · have hlt : y * width + x < width * height := by
        calc y * width + x < y * width + width := by omega
          _ = (y + 1) * width := by ring
          _ ≤ height * width := Nat.mul_le_mul_right width h
          _ = width * height := by ring
      rw [List.getElem?_append_left (by rwa [length_positions]), ih h]
    · have he : y = height := by omega
      subst he
      rw [List.getElem?_append_right (by rw [length_positions, Nat.mul_comm]; omega),
        length_positions, Nat.mul_comm width, Nat.add_sub_cancel_left]
      simp [hx]

theorem mem_zipIdx_positions (hx : x < width) (hy : y < height) :
    ((x, y), y * width + x) ∈ (positions width height).zipIdx :=
  List.mem_zipIdx_iff_getElem?.mpr (getElem?_positions hx hy)

theorem cell_lt (hx : x < width) (hy : y < height) : y * width + x < width * height := by
  have h := (List.getElem?_eq_some_iff.mp (getElem?_positions hx hy)).1
  rwa [length_positions] at h

theorem cell_injective {width x y x' y' : Nat} (hx : x < width) (hx' : x' < width)
    (h : y * width + x = y' * width + x') : x = x' ∧ y = y' := by
  have hmod := congrArg (· % width) h
  have hdiv := congrArg (· / width) h
  have hpos : 0 < width := by omega
  simp only [Nat.add_comm (_ * width), Nat.add_mul_mod_self_right, Nat.mod_eq_of_lt hx,
    Nat.mod_eq_of_lt hx'] at hmod
  simp only [Nat.add_comm (_ * width), Nat.add_mul_div_right _ _ hpos, Nat.div_eq_of_lt hx,
    Nat.div_eq_of_lt hx', Nat.zero_add] at hdiv
  exact ⟨hmod, hdiv⟩

namespace Canvas

/-- The canvas has a place for each cell of a rectangle. -/
structure Sized (c : Canvas) (width height : Nat) : Prop where
  width_eq : c.width = width
  size_eq : c.cells.size = width * height

variable {c : Canvas} {width height : Nat}

theorem sized_blank (width height : Nat) : (blank width height).Sized width height :=
  ⟨rfl, by simp [blank]⟩

theorem Sized.set (h : c.Sized width height) (x y : Nat) (id : Int) :
    (c.set x y id).Sized width height :=
  ⟨h.width_eq, by simp [Canvas.set, h.size_eq]⟩

@[simp] theorem get?_blank (width height x y : Nat) : (blank width height).get? x y = none := by
  simp only [blank, get?, Array.getElem?_replicate]
  split <;> rfl

theorem get?_set (h : c.Sized width height) {x y x' y' : Nat} (id : Int) (hx : x < width)
    (hy : y < height) (hx' : x' < width) :
    (c.set x y id).get? x' y' = if x = x' ∧ y = y' then some id else c.get? x' y' := by
  have hlt : y * width + x < c.cells.size := h.size_eq ▸ cell_lt hx hy
  simp only [get?, Canvas.set, h.width_eq, Array.getElem?_setIfInBounds]
  by_cases he : y * width + x = y' * width + x'
  · rw [if_pos he, if_pos hlt, if_pos (cell_injective hx hx' he)]
    rfl
  · rw [if_neg he, if_neg]
    rintro ⟨rfl, rfl⟩
    exact he rfl

end Canvas

end EscapeRoom.Level
