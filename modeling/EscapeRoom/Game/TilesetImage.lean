import EscapeRoom.Game.Memory
import EscapeRoom.Tileset.Basic

/-!
# Tileset images

The game looks up metatiles by their number in a tileset blob. Without a usable tileset, and for numbers
that have no record, a metatile is blank.
-/

namespace EscapeRoom

structure Metatile where
  chars : Quad UInt8 := Quad.all 32
  colorMode : UInt8 := 0
  colors : Quad UInt8 := Quad.all 1
  flags : UInt16 := 0
  deriving Repr, DecidableEq

def Metatile.isSolid (t : Metatile) : Bool :=
  t.flags % 2 == 1

/-- The colours of the four characters: the first one for all, or one for each. -/
def Metatile.shownColors (t : Metatile) : Quad UInt8 :=
  if t.colorMode = 0 then Quad.all t.colors.topLeft else t.colors

structure TilesetImage where
  memory : Memory := {}
  deriving Repr, DecidableEq

namespace TilesetImage

def isValid (t : TilesetImage) : Bool :=
  t.memory.slice 0 5 == Bytes.ofAscii "TSET" ++ [1]

def tileCount (t : TilesetImage) : UInt8 := t.memory.read 7

def recordSize (t : TilesetImage) : UInt8 := t.memory.read 8

def records (t : TilesetImage) : UInt16 := t.memory.word 9

def background (t : TilesetImage) : UInt8 := t.memory.read 13

def multicolor1 (t : TilesetImage) : UInt8 := t.memory.read 14

def multicolor2 (t : TilesetImage) : UInt8 := t.memory.read 15

def record? (t : TilesetImage) (id : UInt8) : Option Nat :=
  if t.tileCount ≤ id || t.recordSize < 12 then none
  else some (t.records.toNat + id.toNat * t.recordSize.toNat)

def quadAt (t : TilesetImage) (i : Nat) : Quad UInt8 :=
  ⟨t.memory.read i, t.memory.read (i + 1), t.memory.read (i + 2), t.memory.read (i + 3)⟩

def metatile (t : TilesetImage) (id : UInt8) : Metatile :=
  match t.record? id with
  | none => {}
  | some base =>
    { chars := t.quadAt (base + 1)
      colorMode := t.memory.read (base + 5)
      colors := t.quadAt (base + 6)
      flags := t.memory.word (base + 10) }

end TilesetImage

end EscapeRoom
