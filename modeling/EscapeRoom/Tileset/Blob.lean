import EscapeRoom.Bytes
import EscapeRoom.Tileset.Basic

/-!
# The tileset blob

A header of 17 bytes is followed by one record of 12 bytes for each tile, in increasing order of ids.
Beside the writer stands the layout by which a blob is read.
-/

namespace EscapeRoom.Tileset

def headerSize : Nat := 17

def recordSize : Nat := 12

def blobVersion : Nat := 1

/-- The record of a tile: id, four characters, colour mode, four colours, flags. -/
def tileRecord (t : Tile) : Bytes :=
  byteOf t.id :: t.chars.toList.map byteOf ++ byteOf t.colorMode.code ::
    t.colors.toList.map byteOf ++ wordOf t.flags

def blobHeader (ts : Tileset) : Bytes :=
  Bytes.ofAscii "TSET" ++
    [byteOf blobVersion, byteOf ts.tileWidth, byteOf ts.tileHeight, byteOf ts.tiles.length,
      byteOf recordSize] ++
    wordOf headerSize ++ wordOf 0 ++
    [byteOf ts.background, byteOf ts.multicolor1, byteOf ts.multicolor2, 0]

def blob (ts : Tileset) : Bytes :=
  blobHeader ts ++ ts.sortedTiles.flatMap tileRecord

end EscapeRoom.Tileset
