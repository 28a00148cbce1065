import Mathlib.Data.Nat.Bitwise
import EscapeRoom.Game.Puzzle

/-!
# Flags as bits

The state of the flags is a sequence of 256 bits. Setting or clearing a flag that the level has changes its
bit and no other one, and two states with the same bits are the same.
-/

namespace EscapeRoom.Puzzle

variable {i : UInt8} {p : Puzzle}

def bit (p : Puzzle) (i : Nat) : Bool :=
  ((p.flagBytes[i / 8]?).getD 0).toNat.testBit (i % 8)

theorem toNat_bitMask (i : UInt8) : (bitMask i).toNat = 2 ^ (i.toNat % 8) := by
  have hlt : 2 ^ (i.toNat % 8) < 2 ^ 8 := Nat.pow_lt_pow_right (by decide) (by omega)
  rw [bitMask, UInt8.toNat_shiftLeft, UInt8.toNat_mod]
  simp only [UInt8.reduceToNat, Nat.mod_mod, Nat.shiftLeft_eq, Nat.one_mul]
  exact Nat.mod_eq_of_lt hlt

theorem and_bitMask_ne_zero (b i : UInt8) :
    (b &&& bitMask i != 0) = b.toNat.testBit (i.toNat % 8) := by
  have h : (b &&& bitMask i).toNat = (b.toNat.testBit (i.toNat % 8)).toNat * 2 ^ (i.toNat % 8) := by
    rw [UInt8.toNat_and, toNat_bitMask, Nat.and_two_pow]
  have hpos : 0 < 2 ^ (i.toNat % 8) := Nat.two_pow_pos _
  cases hb : b.toNat.testBit (i.toNat % 8) with
  | false =>
    rw [hb, Bool.toNat_false, Nat.zero_mul] at h
    rw [bne_eq_false_iff_eq]
    exact UInt8.toNat_inj.mp h
  | true =>
    rw [hb, Bool.toNat_true, Nat.one_mul] at h
    rw [bne_iff_ne]
    intro h0
    rw [h0] at h
    exact hpos.ne h

theorem testBit_or_bitMask (b i : UInt8) (k : Nat) :
    (b ||| bitMask i).toNat.testBit k = (decide (k = i.toNat % 8) || b.toNat.testBit k) := by
  rw [UInt8.toNat_or, Nat.testBit_or, toNat_bitMask, Nat.testBit_two_pow, Bool.or_comm]
  simp only [eq_comm]

theorem testBit_and_not_bitMask (b i : UInt8) {k : Nat} (hk : k < 8) :
    (b &&& ~~~bitMask i).toNat.testBit k = (!decide (k = i.toNat % 8) && b.toNat.testBit k) := by
  have hnot : (~~~bitMask i).toNat.testBit k = !decide (k = i.toNat % 8) := by
    have h := BitVec.getLsbD_not (x := (bitMask i).toBitVec) (i := k)
    rw [decide_eq_true hk, Bool.true_and] at h
    refine h.trans ?_
    rw [← BitVec.testBit_toNat]
    change (!(bitMask i).toNat.testBit k) = _
    rw [toNat_bitMask, Nat.testBit_two_pow]
    simp only [eq_comm]
  rw [UInt8.toNat_and, Nat.testBit_and, hnot, Bool.and_comm]

theorem flag_eq (p : Puzzle) (i : UInt8) : p.flag i = (decide (i < p.flagCount) && p.bit i.toNat) := by
  have hlt : i.toNat / 8 < 32 := (byteIndex i).isLt
  rw [flag, and_bitMask_ne_zero, bit, Vector.getElem?_eq_getElem hlt, Option.getD_some]
  rfl

@[simp] theorem bit_start (l : LevelImage) (i : Nat) : (start l).bit i = false := by
  simp only [bit, start, Vector.getElem?_replicate]
  split <;> simp

theorem bit_set_byte {p q : Puzzle} {i b : UInt8}
    (hq : q.flagBytes = p.flagBytes.set (byteIndex i) b (byteIndex i).isLt) (j : Nat) :
    q.bit j = if j / 8 = i.toNat / 8 then b.toNat.testBit (j % 8) else p.bit j := by
  have hlt : i.toNat / 8 < 32 := (byteIndex i).isLt
  simp only [bit, hq, Vector.getElem?_set]
  have hi : (byteIndex i : Nat) = i.toNat / 8 := rfl
  simp only [hi]
  split
  · rename_i he
    rw [if_pos he.symm]
    rfl
  · rename_i he
    rw [if_neg (Ne.symm he)]

theorem bit_of_byteIndex (p : Puzzle) {j : Nat} (h : j / 8 = i.toNat / 8) :
    p.flagBytes[byteIndex i].toNat.testBit (j % 8) = p.bit j := by
  have hlt : i.toNat / 8 < 32 := (byteIndex i).isLt
  rw [bit, h, Vector.getElem?_eq_getElem hlt, Option.getD_some]
  rfl

theorem bit_setFlag (hi : i < p.flagCount) (j : Nat) : (p.setFlag i).bit j = (decide (j = i.toNat) || p.bit j) := by
  rw [setFlag, if_neg (UInt8.not_le.mpr hi), bit_set_byte rfl]
  split
  · rename_i hb
    rw [testBit_or_bitMask, bit_of_byteIndex p hb]
    have hiff : (j % 8 = i.toNat % 8) ↔ j = i.toNat := by omega
    simp only [hiff]
  · rename_i hb
    have hne : j ≠ i.toNat := fun he => hb (he ▸ rfl)
    rw [decide_eq_false hne, Bool.false_or]

theorem bit_clearFlag (hi : i < p.flagCount) (j : Nat) :
    (p.clearFlag i).bit j = (!decide (j = i.toNat) && p.bit j) := by
  rw [clearFlag, if_neg (UInt8.not_le.mpr hi), bit_set_byte rfl]
  split
  · rename_i hb
    rw [testBit_and_not_bitMask _ _ (Nat.mod_lt j (by decide)), bit_of_byteIndex p hb]
    have hiff : (j % 8 = i.toNat % 8) ↔ j = i.toNat := by omega
    simp only [hiff]
  · rename_i hb
    have hne : j ≠ i.toNat := fun he => hb (he ▸ rfl)
    rw [decide_eq_false hne, Bool.not_false, Bool.true_and]

theorem flagBytes_ext {p q : Puzzle} (h : ∀ j, p.bit j = q.bit j) : p.flagBytes = q.flagBytes := by
  refine Vector.ext fun k hk => ?_
  rw [← UInt8.toNat_inj]
  refine Nat.eq_of_testBit_eq fun t => ?_
  rcases Nat.lt_or_ge t 8 with ht | ht
  · have hj := h (8 * k + t)
    have hdiv : (8 * k + t) / 8 = k := by omega
    have hmod : (8 * k + t) % 8 = t := by omega
    simpa only [bit, hdiv, hmod, Vector.getElem?_eq_getElem hk, Option.getD_some] using hj
  · have hb : ∀ b : UInt8, b.toNat.testBit t = false := fun b =>
      Nat.testBit_lt_two_pow (Nat.lt_of_lt_of_le b.toNat_lt (Nat.pow_le_pow_right (by decide) ht))
    rw [hb, hb]

theorem counts_setFlag (p : Puzzle) (i : UInt8) :
    (p.setFlag i).flagCount = p.flagCount ∧ (p.setFlag i).varCount = p.varCount := by
  unfold setFlag
  split <;> exact ⟨rfl, rfl⟩

theorem counts_clearFlag (p : Puzzle) (i : UInt8) :
    (p.clearFlag i).flagCount = p.flagCount ∧ (p.clearFlag i).varCount = p.varCount := by
  unfold clearFlag
  split <;> exact ⟨rfl, rfl⟩

theorem counts_setVar (p : Puzzle) (i v : UInt8) :
    (p.setVar i v).flagCount = p.flagCount ∧ (p.setVar i v).varCount = p.varCount := by
  unfold setVar
  split <;> exact ⟨rfl, rfl⟩

structure FlagChanged (p : Puzzle) (i : Nat) (b : Bool) (q : Puzzle) : Prop where
  bit : ∀ j, q.bit j = if j = i then b else p.bit j
  flagCount : q.flagCount = p.flagCount
  vars : q.vars = p.vars
  varCount : q.varCount = p.varCount

theorem FlagChanged.unique {p q q' : Puzzle} {i : Nat} {b : Bool} (h : p.FlagChanged i b q)
    (h' : p.FlagChanged i b q') : q = q' := by
  have hb : q.flagBytes = q'.flagBytes := flagBytes_ext fun j => (h.bit j).trans (h'.bit j).symm
  have hc : q.flagCount = q'.flagCount := h.flagCount.trans h'.flagCount.symm
  have hv : q.vars = q'.vars := h.vars.trans h'.vars.symm
  have hvc : q.varCount = q'.varCount := h.varCount.trans h'.varCount.symm
  cases q
  cases q'
  simp_all

theorem flagChanged_setFlag (hi : i < p.flagCount) : p.FlagChanged i.toNat true (p.setFlag i) := by
  refine ⟨fun j => ?_, ?_, ?_, ?_⟩
  · rw [bit_setFlag hi]
    split <;> simp_all
  all_goals rw [setFlag, if_neg (UInt8.not_le.mpr hi)]

theorem flagChanged_clearFlag (hi : i < p.flagCount) : p.FlagChanged i.toNat false (p.clearFlag i) := by
  refine ⟨fun j => ?_, ?_, ?_, ?_⟩
  · rw [bit_clearFlag hi]
    split <;> simp_all
  all_goals rw [clearFlag, if_neg (UInt8.not_le.mpr hi)]

structure VarChanged (p : Puzzle) (i : Nat) (v : UInt8) (q : Puzzle) : Prop where
  var : ∀ j, q.vars[j]? = if j = i then some v else p.vars[j]?
  flagBytes : q.flagBytes = p.flagBytes
  flagCount : q.flagCount = p.flagCount
  varCount : q.varCount = p.varCount

theorem VarChanged.unique {p q q' : Puzzle} {i : Nat} {v : UInt8} (h : p.VarChanged i v q)
    (h' : p.VarChanged i v q') : q = q' := by
  have hv : q.vars = q'.vars := by
    refine Vector.ext fun j hj => Option.some.inj ?_
    rw [← Vector.getElem?_eq_getElem hj, ← Vector.getElem?_eq_getElem hj]
    exact (h.var j).trans (h'.var j).symm
  have hb : q.flagBytes = q'.flagBytes := h.flagBytes.trans h'.flagBytes.symm
  have hc : q.flagCount = q'.flagCount := h.flagCount.trans h'.flagCount.symm
  have hvc : q.varCount = q'.varCount := h.varCount.trans h'.varCount.symm
  cases q
  cases q'
  simp_all

theorem varChanged_setVar {i v : UInt8} (hi : i.toNat < p.varCount) : p.VarChanged i.toNat v (p.setVar i v) := by
  have hle := p.varCount_le
  rw [setVar, dif_pos hi]
  refine ⟨fun j => ?_, rfl, rfl, rfl⟩
  rw [Vector.getElem?_set]
  simp only [eq_comm]

end EscapeRoom.Puzzle
