import EscapeRoom.Bytes

/-!
# Read-only memory

What the game reads its data from. Memory goes on with zeros behind the bytes it was made from, so that
every read gives a byte. A word has its low byte first.
-/

namespace EscapeRoom

structure Memory where
  cells : Array UInt8 := #[]
  deriving Repr, DecidableEq

namespace Memory

def ofBytes (b : Bytes) : Memory :=
  ⟨b.toArray⟩

def read (m : Memory) (i : Nat) : UInt8 :=
  m.cells.getD i 0

/-- The word whose low byte is at `i`. -/
def word (m : Memory) (i : Nat) : UInt16 :=
  (m.read i).toUInt16 + 256 * (m.read (i + 1)).toUInt16

def slice (m : Memory) (start count : Nat) : Bytes :=
  (List.range count).map fun i => m.read (start + i)

/-- The bytes from `start` up to the first zero. -/
def textAt (m : Memory) (start : Nat) : Bytes :=
  (m.slice start (m.cells.size - start)).takeWhile (· != 0)

@[simp] theorem read_ofBytes (b : Bytes) (i : Nat) : (ofBytes b).read i = b.getD i 0 := by
  simp [ofBytes, read, Array.getD_eq_getD_getElem?, List.getD_eq_getElem?_getD]

end Memory

end EscapeRoom
