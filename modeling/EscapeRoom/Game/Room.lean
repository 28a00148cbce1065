import EscapeRoom.Game.State

/-!
# Rooms on the screen

Loading a room looks up where its parts lie. Drawing a room puts its metatiles on the text screen, as far
as they fit into the window; each is a block of two by two characters.
-/

namespace EscapeRoom.Game

def loadRoom (g : Game) (room spawn : UInt8) : Game :=
  { g with
    room :=
      { id := room, spawn, mapLevel := some g.choice, offsets := g.level.roomOffsets room } }

def metatile (g : Game) (id : UInt8) : Metatile :=
  if g.hasTileset then g.shelf.tileset.metatile id else {}

/-- Forgets a tileset that is not valid and a charset that is empty. -/
def checkTiles (g : Game) : Game :=
  let hasCharset := g.hasCharset && g.shelf.charsetSize != 0
  { g with
    hasTileset := g.hasTileset && g.shelf.tileset.isValid
    hasCharset
    charsetSize := if hasCharset then g.shelf.charsetSize else 0 }

/-- One of the three shared colours; zero without a tileset. -/
def sharedColor (g : Game) (color : TilesetImage → UInt8) : UInt8 :=
  if g.hasTileset then color g.shelf.tileset else 0

def installCharset (g : Game) : Game :=
  if g.hasCharset && 2048 ≤ g.charsetSize then
    let g := g.poke bankSelect ((g.peek bankSelect &&& 0xFC) ||| 0x02)
    let g := g.pokeAll charsetAddress (g.shelf.charset.slice 0 2048)
    let screenIndex := (screenAddress - displayBank) / 0x400
    let charsetIndex := (charsetAddress - displayBank) / 0x800
    g.poke displayPointers (UInt8.ofNat (screenIndex * 16 + charsetIndex * 2))
  else g

def openMapWindow (g : Game) : Game :=
  let window : Window := { width := 40, height := 25 }
  { g with mapWindow := window }.note (.windowOpened screenAddress window)

/-- Sets up the screen: the window, the charset, multicolour mode and the shared colours. -/
def initScreen (g : Game) : Game :=
  let g := g.openMapWindow.installCharset
  let g := g.poke displayControl (g.peek displayControl ||| 0x10)
  { g with
    colors :=
      { g.colors with
        background := g.sharedColor TilesetImage.background
        background1 := g.sharedColor TilesetImage.multicolor1
        background2 := g.sharedColor TilesetImage.multicolor2 }
    ready := true }

/-- Puts a character into a window. Every character is shown in multicolour mode. -/
def putChar (g : Game) (x y char color : UInt8) : Game :=
  let w := g.mapWindow
  let i := (w.top.toNat + y.toNat) * 40 + w.left.toNat + x.toNat
  { g with screen := g.screen.setIfInBounds i ⟨char, color ||| 8⟩ }

/-- Draws a metatile, if all of it fits into the window. -/
def drawMetatile (g : Game) (mx my id : UInt8) : Game :=
  let x := mx * 2
  let y := my * 2
  if !g.ready || g.mapWindow.width ≤ x + 1 || g.mapWindow.height ≤ y + 1 then g
  else
    let tile := g.metatile id
    let chars := tile.chars
    let colors := tile.shownColors
    (((g.putChar x y chars.topLeft colors.topLeft).putChar (x + 1) y chars.topRight
      colors.topRight).putChar x (y + 1) chars.bottomLeft colors.bottomLeft).putChar (x + 1) (y + 1)
      chars.bottomRight colors.bottomRight

/-- Draws the current room. What does not fit into the window is left out; the rows of the map are read
with the width that is shown. -/
def drawRoom (g : Game) : Game :=
  match g.room.mapLevel with
  | none => g
  | some source =>
    if !g.ready then g
    else
      let level := g.shelf.level source
      let width := min g.level.mapWidth (g.mapWindow.width / 2)
      let height := min g.level.mapHeight (g.mapWindow.height / 2)
      (List.range height.toNat).foldl (fun g y =>
        (List.range width.toNat).foldl (fun g x =>
          let (x, y) := (UInt8.ofNat x, UInt8.ofNat y)
          g.drawMetatile x y (level.mapByte g.room.offsets.map width x y)) g) g

/-- Whether a cell of the current room keeps the player out; outside the map everything does. -/
def isSolid (g : Game) (x y : UInt8) : Bool :=
  match g.room.mapLevel with
  | none => true
  | some source =>
    let width := g.level.mapWidth
    if width ≤ x || g.level.mapHeight ≤ y then true
    else (g.metatile ((g.shelf.level source).mapByte g.room.offsets.map width x y)).isSolid

end EscapeRoom.Game
