import EscapeRoom.Game.Room

/-!
# The player

The player stands on a cell of the current room and is shown as a sprite. A press of the joystick moves
the player by one cell, or through an exit at the edge of the room.
-/

namespace EscapeRoom.Game

def playerSprite : Bytes := [
  0x00, 0xFC, 0x00, 0x02, 0x57, 0x00, 0x0E, 0xFF, 0xC0, 0x0E, 0xFF, 0x00, 0x0E, 0x57, 0x00, 0x0F,
  0x74, 0x00, 0x0E, 0xD5, 0x00, 0x0F, 0x55, 0x00, 0x00, 0x15, 0x80, 0x03, 0x40, 0xA0, 0x01, 0xED,
  0x00, 0x06, 0xF7, 0x00, 0x01, 0x6D, 0xC0, 0x1A, 0x01, 0xC0, 0x2A, 0xA9, 0x80, 0x03, 0x57, 0x80,
  0x03, 0xD7, 0x00, 0x01, 0x5F, 0x00, 0x01, 0xCF, 0x00, 0x00, 0x41, 0x00, 0x01, 0x82, 0x00, 0x00]

def playerImage : UInt8 :=
  UInt8.ofNat ((spriteAddress - displayBank) / 64)

def initSprite (g : Game) : Game :=
  let g := g.pokeAll spriteAddress playerSprite
  let g := (g.note (.spritesReset screenAddress)).poke spritePointers playerImage
  { g with colors := { g.colors with sprite0 := 11, sprite1 := 15 } }.note
    (.spriteSet { image := playerImage, color := 7 })

def moveSprite (g : Game) : Game :=
  g.note (.spriteMoved 0 (g.player.x.toNat * 16 + 24) (g.player.y.toNat * 16 + 50))

/-- Puts the player on the spawn point at which the room was entered. -/
def placeAtSpawn (g : Game) : Game :=
  let (x, y) := g.level.spawnAt g.room.offsets.spawns g.room.spawn
  { g with player := { g.player with x, y } }

def initPlayer (g : Game) : Game :=
  let g := g.initSprite.placeAtSpawn.moveSprite
  { g with player := { g.player with started := true } }

def exits (g : Game) : List ExitRecord :=
  (List.range (g.level.count g.room.offsets.exits).toNat).map fun i =>
    g.level.exitAt g.room.offsets.exits (UInt8.ofNat i)

/-- Takes the first exit at an edge, if there is one. -/
def tryExit (g : Game) (edge : UInt8) : Option Game :=
  (g.exits.find? (·.edge == edge)).map fun e =>
    (g.loadRoom e.room e.spawn).drawRoom.placeAtSpawn.moveSprite

inductive Direction where
  | left
  | right
  | up
  | down
  deriving Repr, DecidableEq

def Direction.edge : Direction → UInt8
  | .left => 0
  | .right => 1
  | .up => 2
  | .down => 3

def Direction.bit : Direction → UInt8
  | .left => 1
  | .right => 2
  | .up => 4
  | .down => 8

def pressedDirection (g : Game) : Option Direction :=
  [Direction.left, .right, .up, .down].find? fun d => g.buttons.pressed &&& d.bit != 0

def atEdge (g : Game) : Direction → Bool
  | .left => g.player.x == 0
  | .right => g.level.mapWidth.toNat ≤ g.player.x.toNat + 1
  | .up => g.player.y == 0
  | .down => g.level.mapHeight.toNat ≤ g.player.y.toNat + 1

def nextCell (g : Game) : Direction → UInt8 × UInt8
  | .left => (g.player.x - 1, g.player.y)
  | .right => (g.player.x + 1, g.player.y)
  | .up => (g.player.x, g.player.y - 1)
  | .down => (g.player.x, g.player.y + 1)

def walk (g : Game) (d : Direction) : Game :=
  if g.atEdge d then (g.tryExit d.edge).getD g
  else
    let (x, y) := g.nextCell d
    if g.isSolid x y then g else { g with player := { g.player with x, y } }.moveSprite

def updatePlayer (g : Game) : Game :=
  if !g.player.started then g.initPlayer
  else
    match g.pressedDirection with
    | none => g
    | some d => g.walk d

end EscapeRoom.Game
