import Mathlib.Tactic.Ring
import EscapeRoom.Game.LevelImage

/-!
# Sections of a blob

A blob holds a part at an offset if the part stands there. What is written one after the other is
found at the sums of the lengths before it, and an image made from a blob reads back the bytes and the
words of its parts.
-/

namespace EscapeRoom

theorem toNat_byteOf (n : Int) : (byteOf n).toNat = (n % 256).toNat := by
  have h := Int.emod_lt_of_pos n (show (0 : Int) < 256 by decide)
  have h₀ := Int.emod_nonneg n (show (256 : Int) ≠ 0 by decide)
  rw [byteOf, UInt8.toNat_ofNat', Nat.mod_eq_of_lt (by omega)]

theorem coe_toNat_byteOf (n : Int) : ((byteOf n).toNat : Int) = n % 256 := by
  rw [toNat_byteOf, Int.toNat_of_nonneg (Int.emod_nonneg n (by decide))]

theorem coe_toNat_byteOf_of_range {n : Int} (h₀ : 0 ≤ n) (h : n ≤ 255) :
    ((byteOf n).toNat : Int) = n := by
  rw [coe_toNat_byteOf, Int.emod_eq_of_lt h₀ (by omega)]

theorem toNat_byteOf_natCast {n : Nat} (h : n ≤ 255) : (byteOf n).toNat = n := by
  have := coe_toNat_byteOf_of_range (Int.natCast_nonneg n) (by omega)
  omega

@[simp] theorem length_wordOf (n : Int) : (wordOf n).length = 2 := rfl

namespace Bytes

variable {i : Nat} {α : Type}

def HoldsAt (b : Bytes) (o : Nat) (part : Bytes) : Prop :=
  ∃ before after, b = before ++ part ++ after ∧ before.length = o

variable {b p q : Bytes} {o : Nat}

theorem holdsAt_self (b : Bytes) : b.HoldsAt 0 b :=
  ⟨[], [], by simp⟩

theorem HoldsAt.length_le (h : b.HoldsAt o p) : o + p.length ≤ b.length := by
  obtain ⟨before, after, rfl, rfl⟩ := h
  simp only [List.length_append]
  omega

theorem HoldsAt.left (h : b.HoldsAt o (p ++ q)) : b.HoldsAt o p := by
  obtain ⟨before, after, rfl, rfl⟩ := h
  exact ⟨before, q ++ after, by simp, rfl⟩

theorem HoldsAt.right (h : b.HoldsAt o (p ++ q)) : b.HoldsAt (o + p.length) q := by
  obtain ⟨before, after, rfl, rfl⟩ := h
  exact ⟨before ++ p, after, by simp, by simp⟩

theorem HoldsAt.trans (h : b.HoldsAt o p) (hp : p.HoldsAt i q) : b.HoldsAt (o + i) q := by
  obtain ⟨before, after, rfl, rfl⟩ := hp
  exact h.left.right

theorem HoldsAt.head {x : UInt8} (h : b.HoldsAt o (x :: p)) : b.HoldsAt o [x] :=
  HoldsAt.left (p := [x]) h

theorem HoldsAt.tail {x : UInt8} (h : b.HoldsAt o (x :: p)) : b.HoldsAt (o + 1) p :=
  HoldsAt.right (p := [x]) h

theorem HoldsAt.get (h : b.HoldsAt o p) (hi : i < p.length) : b.getD (o + i) 0 = p.getD i 0 := by
  obtain ⟨before, after, rfl, rfl⟩ := h
  rw [List.getD_eq_getElem?_getD, List.getD_eq_getElem?_getD, List.append_assoc,
    List.getElem?_append_right (by omega), Nat.add_sub_cancel_left, List.getElem?_append_left hi]

/-- A list of parts stands where its first part does, and behind it the others. -/
theorem HoldsAt.flatMap_left {f : α → Bytes} {xs ys : List α} {x : α} (h : b.HoldsAt o ((xs ++ x :: ys).flatMap f)) :
    b.HoldsAt (o + (xs.flatMap f).length) (f x) := by
  rw [List.flatMap_append, List.flatMap_cons] at h
  exact h.right.left

theorem length_flatMap_const {f : α → Bytes} {n : Nat} {xs : List α}
    (hn : ∀ x ∈ xs, (f x).length = n) : (xs.flatMap f).length = n * xs.length := by
  induction xs with
  | nil => rfl
  | cons x xs ih =>
    rw [List.forall_mem_cons] at hn
    rw [List.flatMap_cons, List.length_append, hn.1, ih hn.2, List.length_cons]
    ring

theorem HoldsAt.record {f : α → Bytes} {n : Nat} {xs : List α}
    (h : b.HoldsAt o (xs.flatMap f)) (hn : ∀ x ∈ xs, (f x).length = n) {x : α}
    (hx : xs[i]? = some x) : b.HoldsAt (o + n * i) (f x) := by
  obtain ⟨hi, rfl⟩ := List.getElem?_eq_some_iff.mp hx
  rw [← List.take_append_drop i xs, List.drop_eq_getElem_cons hi] at h
  have hr := h.flatMap_left
  rwa [length_flatMap_const fun x hx => hn x (List.mem_of_mem_take hx), List.length_take,
    Nat.min_eq_left (by omega)] at hr

end Bytes

namespace LevelImage

variable {n : Nat}

def ofBytes (b : Bytes) : LevelImage :=
  ⟨Memory.ofBytes b⟩

variable {b p : Bytes} {o : Nat} {a : UInt16}

theorem read_of_holdsAt (h : b.HoldsAt o p) {i : Nat} (hi : i < p.length) :
    (Memory.ofBytes b).read (o + i) = p.getD i 0 := by
  rw [Memory.read_ofBytes]
  exact h.get hi

theorem byte_of_holdsAt (h : b.HoldsAt o p) {i : Nat} (hi : i < p.length) (ha : a.toNat = o + i) :
    (ofBytes b).byte a = p.getD i 0 := by
  rw [byte, ha]
  exact read_of_holdsAt h hi

theorem memoryWord_of_holdsAt (h : b.HoldsAt o (wordOf n)) : ((ofBytes b).memory.word o).toNat = n % 65536 := by
  have hlow := read_of_holdsAt h (show 0 < (wordOf n).length by simp)
  have hh := read_of_holdsAt h (show 1 < (wordOf n).length by simp)
  have h₀ : ((byteOf n).toNat : Int) = (n : Int) % 256 := coe_toNat_byteOf n
  have h₁ : ((byteOf ((n : Int) / 256)).toNat : Int) = (n : Int) / 256 % 256 := coe_toNat_byteOf _
  simp only [Nat.add_zero, wordOf, List.getD_cons_zero, List.getD_cons_succ] at hlow hh
  simp only [Memory.word, ofBytes, hlow, hh, UInt16.toNat_add, UInt16.toNat_mul,
    UInt8.toNat_toUInt16, UInt16.reduceToNat]
  omega

theorem word_of_holdsAt (h : b.HoldsAt o (wordOf n)) (ha : a.toNat = o) : ((ofBytes b).word a).toNat = n % 65536 := by
  rw [word, ha]
  exact memoryWord_of_holdsAt h

theorem word_of_holdsAt_of_lt (h : b.HoldsAt o (wordOf n)) (ha : a.toNat = o)
    (hn : n < 65536) : ((ofBytes b).word a).toNat = n := by
  rw [word_of_holdsAt h ha, Nat.mod_eq_of_lt hn]

theorem slice_of_holdsAt (h : b.HoldsAt o p) : (ofBytes b).memory.slice o p.length = p := by
  apply List.ext_getElem
  · simp [Memory.slice]
  · intro i hi hp
    have hr := read_of_holdsAt h hp
    simpa [Memory.slice, ofBytes, hp] using hr

end LevelImage

theorem toNat_add_of_lt {a b : UInt16} (h : a.toNat + b.toNat < 65536) :
    (a + b).toNat = a.toNat + b.toNat := by
  rw [UInt16.toNat_add, Nat.mod_eq_of_lt h]

theorem toNat_uint8_ofNat {i : Nat} (h : i < 256) : (UInt8.ofNat i).toNat = i := by
  rw [UInt8.toNat_ofNat', Nat.mod_eq_of_lt h]

theorem toNat_uint16_ofNat {i : Nat} (h : i < 65536) : (UInt16.ofNat i).toNat = i := by
  rw [UInt16.toNat_ofNat', Nat.mod_eq_of_lt h]

/-- The address of a record behind a count, as long as it lies within a blob. -/
theorem toNat_recordAddress {start size : UInt16} {i : UInt8} {o n k : Nat} (ho : start.toNat = o)
    (hn : size.toNat = n) (hk : i.toNat = k) (h : o + 1 + n * k < 65536) :
    (start + 1 + i.toUInt16 * size).toNat = o + 1 + n * k := by
  rw [UInt16.toNat_add, UInt16.toNat_add, UInt16.toNat_mul, UInt8.toNat_toUInt16, ho, hn, hk,
    Nat.mul_comm k n]
  simp only [UInt16.reduceToNat]
  omega

end EscapeRoom
