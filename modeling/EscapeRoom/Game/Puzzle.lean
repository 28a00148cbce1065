import EscapeRoom.Game.LevelImage

/-!
# Flags and variables

The state of a level's puzzles. A level declares how many flags and variables it has; the others read
as zero and cannot be changed. Flags are kept as bits, and there are at most 64 variables.
-/

namespace EscapeRoom

structure Puzzle where
  flagBytes : Vector UInt8 32 := Vector.replicate 32 0
  vars : Vector UInt8 64 := Vector.replicate 64 0
  flagCount : UInt8 := 0
  varCount : Nat := 0
  varCount_le : varCount ≤ 64 := by decide
  deriving Repr, DecidableEq

namespace Puzzle

def start (level : LevelImage) : Puzzle :=
  { flagCount := level.flagCount
    varCount := min level.varCount.toNat 64
    varCount_le := Nat.min_le_right _ _ }

def byteIndex (flag : UInt8) : Fin 32 :=
  ⟨flag.toNat / 8, by have := flag.toNat_lt; omega⟩

def bitMask (flag : UInt8) : UInt8 :=
  1 <<< (flag % 8)

def flag (p : Puzzle) (i : UInt8) : Bool :=
  i < p.flagCount && p.flagBytes[byteIndex i] &&& bitMask i != 0

def setFlag (p : Puzzle) (i : UInt8) : Puzzle :=
  if p.flagCount ≤ i then p
  else
    { p with
      flagBytes := p.flagBytes.set (byteIndex i) (p.flagBytes[byteIndex i] ||| bitMask i) }

def clearFlag (p : Puzzle) (i : UInt8) : Puzzle :=
  if p.flagCount ≤ i then p
  else
    { p with
      flagBytes := p.flagBytes.set (byteIndex i) (p.flagBytes[byteIndex i] &&& ~~~bitMask i) }

def var (p : Puzzle) (i : UInt8) : UInt8 :=
  if h : i.toNat < p.varCount then
    have := p.varCount_le
    p.vars[i.toNat]
  else 0

def setVar (p : Puzzle) (i value : UInt8) : Puzzle :=
  if h : i.toNat < p.varCount then
    { p with vars := p.vars.set i.toNat value (Nat.lt_of_lt_of_le h p.varCount_le) }
  else p

def setFlags (p : Puzzle) : List Nat :=
  (List.range 256).filter fun i =>
    let flag := UInt8.ofNat i
    p.flagBytes[byteIndex flag] &&& bitMask flag != 0

end Puzzle

end EscapeRoom
