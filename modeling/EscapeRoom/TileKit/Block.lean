import EscapeRoom.Picture.Charset
import EscapeRoom.Tileset.Basic

/-!
# Blocks

A block is a metatile cut out of a picture: four encoded characters, each with its local colour.
-/

namespace EscapeRoom.TileKit

structure Block where
  chars : Quad Bytes
  colors : Quad Nat
  deriving Repr, DecidableEq

def differing {α : Type} [DecidableEq α] (a b : Quad α) : Nat :=
  ((a.toList.zip b.toList).filter fun (x, y) => decide (x ≠ y)).length

namespace Block

def distance (a b : Block) : Nat :=
  differing a.chars b.chars + differing a.colors b.colors

/-- The block of 16 by 16 pixels whose top left corner is at a place, if it lies in the picture. -/
def sample? (r : Raster) (s : SharedColors) (x y : Int) : Option Block :=
  if x < 0 || y < 0 || (r.width : Int) ≤ x + 15 || (r.height : Int) ≤ y + 15 then none
  else
    let (x, y) := (x.toNat, y.toNat)
    let char := fun dx dy => Multicolor.encode s (r.cell (x + dx) (y + dy))
    let q : Quad EncodedChar := ⟨char 0 0, char 8 0, char 0 8, char 8 8⟩
    some ⟨q.map (·.bytes), q.map (·.lc)⟩

def outOfBoundsMessage (x y : Int) : String :=
  "Sample out of bounds: (" ++ toString x ++ "," ++ toString y ++ ")"

/-- The block with the characters that a charset has for its own. -/
def inCharset (c : Charset) (b : Block) : Block :=
  { b with chars := b.chars.map fun p => (c.kept[c.slots.getD p 0]?).getD [] }

def slots (c : Charset) (b : Block) : Quad Nat :=
  b.chars.map fun p => c.slots.getD p 0

def raster (s : SharedColors) (b : Block) : Raster :=
  let part := fun (bytes : Bytes) (lc : Nat) =>
    let rows := Multicolor.render s lc bytes
    Raster.ofFn 8 8 fun x y => ((rows[y]?).getD []).getD x s.background
  let put := fun (r : Raster) (x y : Nat) (bytes : Bytes) (lc : Nat) => r.overlay x y (part bytes lc)
  let r := Raster.filled 16 16 s.background
  let r := put r 0 0 b.chars.topLeft b.colors.topLeft
  let r := put r 8 0 b.chars.topRight b.colors.topRight
  let r := put r 0 8 b.chars.bottomLeft b.colors.bottomLeft
  put r 8 8 b.chars.bottomRight b.colors.bottomRight

end Block

end EscapeRoom.TileKit
