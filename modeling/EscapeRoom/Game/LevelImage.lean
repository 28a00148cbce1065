import EscapeRoom.Game.Memory

/-!
# Level images

The game finds the parts of a level blob by the offsets in its header. Offsets are words, and sums of
offsets stay words.
-/

namespace EscapeRoom

structure RoomOffsets where
  map : UInt16 := 0
  spawns : UInt16 := 0
  exits : UInt16 := 0
  objects : UInt16 := 0
  deriving Repr, DecidableEq

structure ExitRecord where
  edge : UInt8
  room : UInt8
  spawn : UInt8
  deriving Repr, DecidableEq

structure LevelImage where
  memory : Memory := {}
  deriving Repr, DecidableEq

namespace LevelImage

def byte (l : LevelImage) (o : UInt16) : UInt8 :=
  l.memory.read o.toNat

def word (l : LevelImage) (o : UInt16) : UInt16 :=
  l.memory.word o.toNat

def isValid (l : LevelImage) : Bool :=
  l.memory.slice 0 5 == Bytes.ofAscii "LVL1" ++ [1]

def roomCount (l : LevelImage) : UInt8 := l.byte 5

def mapWidth (l : LevelImage) : UInt8 := l.byte 6

def mapHeight (l : LevelImage) : UInt8 := l.byte 7

def flagCount (l : LevelImage) : UInt8 := l.byte 8

def varCount (l : LevelImage) : UInt8 := l.byte 9

def startRoom (l : LevelImage) : UInt8 := l.byte 12

def startSpawn (l : LevelImage) : UInt8 := l.byte 13

def directory (l : LevelImage) : UInt16 := l.word 14

def condStream (l : LevelImage) : UInt16 := l.word 16

def actStream (l : LevelImage) : UInt16 := l.word 18

def messageTable (l : LevelImage) : UInt16 := l.word 20

def roomOffsets (l : LevelImage) (room : UInt8) : RoomOffsets :=
  let entry := l.directory + room.toUInt16 * 8
  { map := l.word entry
    spawns := l.word (entry + 2)
    exits := l.word (entry + 4)
    objects := l.word (entry + 6) }

def count (l : LevelImage) (o : UInt16) : UInt8 :=
  l.byte o

def spawnAt (l : LevelImage) (spawns : UInt16) (i : UInt8) : UInt8 × UInt8 :=
  let base := spawns + 1 + i.toUInt16 * 2
  (l.byte base, l.byte (base + 1))

def exitAt (l : LevelImage) (exits : UInt16) (i : UInt8) : ExitRecord :=
  let base := exits + 1 + i.toUInt16 * 3
  ⟨l.byte base, l.byte (base + 1), l.byte (base + 2)⟩

def objectBase (objects : UInt16) (i : UInt8) : UInt16 :=
  objects + 1 + i.toUInt16 * 22

def objectBytes (l : LevelImage) (base : UInt16) : Bytes :=
  l.memory.slice base.toNat 22

/-- The text of a message, if there is one with this number. -/
def message (l : LevelImage) (i : UInt8) : Option Bytes :=
  let table := l.messageTable
  if l.byte table ≤ i then none
  else some (l.memory.textAt (l.word (table + 1 + i.toUInt16 * 2)).toNat)

/-- The map byte of a cell, where `width` is the length of a row. -/
def mapByte (l : LevelImage) (map : UInt16) (width x y : UInt8) : UInt8 :=
  l.memory.read (map.toNat + (y.toNat * width.toNat + x.toNat))

end LevelImage

end EscapeRoom
