import EscapeRoom.Least
import EscapeRoom.Picture.Multicolor

/-!
# Charsets

A charset has room for 256 characters of eight bytes. If more are needed, the commonest are kept, and
each of the others is shown by the kept one that differs from it in the fewest bits.
-/

namespace EscapeRoom

structure Charset where
  kept : List Bytes
  bytes : Bytes
  slots : Table Bytes Nat
  deriving Repr, DecidableEq

namespace Charset

def slotCount : Nat := 256

def bitCount (b : UInt8) : Nat :=
  ((List.range 8).filter fun i => b.toNat.testBit i).length

def distance (a b : Bytes) : Nat :=
  (((a.take 8).zip (b.take 8)).map fun (x, y) => bitCount (x ^^^ y)).foldl (· + ·) 0

def fillSlot (bytes : Bytes) (i : Nat) (pattern : Bytes) : Bytes :=
  bytes.take (i * 8) ++ pattern ++ bytes.drop ((i + 1) * 8)

/-- The bytes of characters in their slots; unused slots are zero. -/
def slotBytes (kept : List Bytes) : Bytes :=
  kept.zipIdx.foldl (fun bytes (p, i) => fillSlot bytes i p) (List.replicate (slotCount * 8) 0)

def nearestSlot (kept : List Bytes) (pattern : Bytes) : Nat :=
  ((least? (fun (k, _) => distance pattern k) kept.zipIdx).map fun ((_, i), _) => i).getD 0

/-- The characters by falling counts; among equals the first one is first. -/
def byFrequency (counts : Table Bytes Nat) : List Bytes :=
  (counts.mergeSort fun a b => decide (b.2 ≤ a.2)).map (·.1)

/-- The charset for a list of characters. None if characters have to be compared and one of them is too
short. -/
def build (patterns : List Bytes) : Option Charset :=
  let counts := Multicolor.tally patterns
  if counts.length ≤ slotCount then
    let kept := counts.keys
    some { kept, bytes := slotBytes kept, slots := kept.zipIdx }
  else if counts.keys.any (·.length < 8) then none
  else
    let kept := (byFrequency counts).take slotCount
    let dropped := counts.keys.filter (! kept.contains ·)
    some { kept, bytes := slotBytes kept
           slots := kept.zipIdx ++ dropped.map fun p => (p, nearestSlot kept p) }

end Charset

end EscapeRoom
