import EscapeRoom.Game.Loop
import EscapeRoom.Proofs.Game.Puzzle
import EscapeRoom.Proofs.Level.Built
import EscapeRoom.Proofs.Level.Image

/-!
# Playing a compiled level

A game plays a compiled level if it has the image of its blob, and its flags and variables are as many as
they are after the puzzles have been set up. Then every declared name has its place in the state of the
game.
-/

namespace EscapeRoom

open Level

/-- The game plays a compiled level; flags, variables and all else can be in any state. -/
structure Game.Plays (g : Game) (c : Compiled) : Prop where
  level : g.level = c.image
  flagCount : g.puzzle.flagCount = (Puzzle.start c.image).flagCount
  varCount : g.puzzle.varCount = (Puzzle.start c.image).varCount

variable {level : Level} {c : Compiled} {g : Game} {base : UInt16} {i : Instruction} {o : Nat} {rest : Bytes}

/-- A game that is given a compiled level plays it once its puzzles are set up. -/
theorem Game.plays_initPuzzle (hs : Stands level c) {i : Nat}
    (hi : g.shelf.level (.other i) = c.image) : (g.choose i).initPuzzle.Plays c := by
  have hc : (g.choose i).level = c.image := by
    rw [choose, if_pos (by rw [hi]; exact hs.isValid)]
    exact hi
  have hl : (g.choose i).initPuzzle.level = c.image := hc
  exact ⟨hl, by rw [initPuzzle, hc], by rw [initPuzzle, hc]⟩

theorem byteOf_natCast {n : Nat} (h : n < 256) : byteOf n = UInt8.ofNat n := by
  rw [← UInt8.toNat_inj, toNat_byteOf_natCast (by omega), toNat_uint8_ofNat h]

theorem Game.Plays.lt_flagCount (hp : g.Plays c) (hs : Stands level c)
    (hf : level.flags.length ≤ 255) {i : Nat} (hi : i < level.flags.length) :
    UInt8.ofNat i < g.puzzle.flagCount := by
  rw [hp.flagCount, Puzzle.start, hs.flagCount, UInt8.lt_iff_toNat_lt, toNat_byteOf_natCast hf,
    toNat_uint8_ofNat (by omega)]
  exact hi

theorem Game.Plays.varCount_eq (hp : g.Plays c) (hs : Stands level c)
    (hv : level.vars.length ≤ 64) : g.puzzle.varCount = level.vars.length := by
  have hst : (Puzzle.start c.image).varCount = min c.image.varCount.toNat 64 := rfl
  rw [hp.varCount, hst, hs.varCount, toNat_byteOf_natCast (by omega), Nat.min_eq_left hv]

theorem Game.Plays.flag_eq (hp : g.Plays c) (hs : Stands level c)
    (hf : level.flags.length ≤ 255) {i : Nat} (hi : i < level.flags.length) :
    g.puzzle.flag (UInt8.ofNat i) = g.puzzle.bit i := by
  rw [Puzzle.flag_eq, decide_eq_true (hp.lt_flagCount hs hf hi), Bool.true_and,
    toNat_uint8_ofNat (by omega)]

theorem Game.Plays.var_eq (hp : g.Plays c) (hs : Stands level c) (hv : level.vars.length ≤ 64)
    {i : Nat} (hi : i < level.vars.length) :
    g.puzzle.vars[i]? = some (g.puzzle.var (UInt8.ofNat i)) := by
  have hc := hp.varCount_eq hs hv
  have hin : (UInt8.ofNat i).toNat = i := toNat_uint8_ofNat (by omega)
  have hlt : (UInt8.ofNat i).toNat < g.puzzle.varCount := by omega
  rw [Puzzle.var, dif_pos hlt, Vector.getElem?_eq_getElem (by omega)]
  simp only [hin]

theorem toNat_address (hlen : c.blob.length ≤ 65535) (h : c.blob.HoldsAt o (i.bytes ++ rest)) (hb : base.toNat = o)
    (d : UInt16) (hd : d.toNat ≤ 3) : (base + d).toNat = o + d.toNat := by
  have hend : o + 3 ≤ c.blob.length := h.left.length_le
  rw [toNat_add_of_lt (by omega), hb]

theorem fetch_of_holdsAt (hlen : c.blob.length ≤ 65535) (h : c.blob.HoldsAt o (i.bytes ++ rest)) (hb : base.toNat = o) :
    c.image.byte base = i.op ∧ c.image.byte (base + 1) = i.a ∧ c.image.byte (base + 2) = i.b := by
  have ht : i.bytes.length = 3 := rfl
  have ha := toNat_address hlen h hb
  exact ⟨LevelImage.byte_of_holdsAt h.left (i := 0) (by omega) hb,
    LevelImage.byte_of_holdsAt h.left (i := 1) (by omega) (ha 1 (by decide)),
    LevelImage.byte_of_holdsAt h.left (i := 2) (by omega) (ha 2 (by decide))⟩

theorem next_of_holdsAt (hlen : c.blob.length ≤ 65535) (h : c.blob.HoldsAt o (i.bytes ++ rest)) (hb : base.toNat = o) :
    c.blob.HoldsAt (o + 3) rest ∧ (base + 3).toNat = o + 3 :=
  ⟨h.right, toNat_address hlen h hb 3 (by decide)⟩

end EscapeRoom
