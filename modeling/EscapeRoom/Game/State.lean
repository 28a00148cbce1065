import EscapeRoom.Game.Inventory
import EscapeRoom.Game.Puzzle
import EscapeRoom.Game.TilesetImage

/-!
# The state of the game

The game reads level, tileset and charset images that never change, and works on the state of its
parts and on the screen of the machine. What it asks the machine's display to do is noted as effects in
order.
-/

namespace EscapeRoom

/-- The images the game is built with, and further levels that it can be given. -/
structure Shelf where
  boot : LevelImage := {}
  levels : List LevelImage := []
  tileset : TilesetImage := {}
  charset : Memory := {}
  charsetSize : UInt32 := 0
  deriving Repr, DecidableEq

inductive LevelChoice where
  | boot
  | other (i : Nat)
  deriving Repr, DecidableEq

def Shelf.level (s : Shelf) : LevelChoice → LevelImage
  | .boot => s.boot
  | .other i => s.levels.getD i {}

/-- A window of the text screen: its corner, width and height. -/
structure Window where
  left : UInt8 := 0
  top : UInt8 := 0
  width : UInt8 := 0
  height : UInt8 := 0
  deriving Repr, DecidableEq

structure Sprite where
  number : Nat := 0
  visible : Bool := true
  x : Nat := 0
  y : Nat := 0
  image : UInt8
  color : UInt8
  multicolor : Bool := true
  wide : Bool := false
  tall : Bool := false
  deriving Repr, DecidableEq

inductive Effect where
  | interruptsOff
  | windowOpened (screen : Nat) (window : Window)
  | windowCleared (window : Window)
  | textDrawn (window : Window) (x y color : UInt8)
  | spritesReset (screen : Nat)
  | spriteSet (sprite : Sprite)
  | spriteMoved (sprite x y : Nat)
  deriving Repr, DecidableEq

structure DisplayColors where
  background : UInt8 := 0
  background1 : UInt8 := 0
  background2 : UInt8 := 0
  sprite0 : UInt8 := 0
  sprite1 : UInt8 := 0
  deriving Repr, DecidableEq

/-- A cell of the text screen: a character and its colour. -/
structure Cell where
  char : UInt8 := 0
  color : UInt8 := 0
  deriving Repr, DecidableEq, Inhabited

structure CurrentRoom where
  id : UInt8 := 0
  spawn : UInt8 := 0
  /-- The level whose map is shown; it stays when another level is chosen. -/
  mapLevel : Option LevelChoice := none
  offsets : RoomOffsets := {}
  deriving Repr, DecidableEq

/-- Which buttons are down, which of them newly so, and which were down before. -/
structure Buttons where
  down : UInt8 := 0
  pressed : UInt8 := 0
  previous : UInt8 := 0
  deriving Repr, DecidableEq

structure Player where
  x : UInt8 := 0
  y : UInt8 := 0
  started : Bool := false
  deriving Repr, DecidableEq

structure Game where
  shelf : Shelf
  choice : LevelChoice := .boot
  hasTileset : Bool := true
  hasCharset : Bool := true
  charsetSize : UInt32 := 0
  room : CurrentRoom := {}
  puzzle : Puzzle := {}
  inventory : Inventory := {}
  buttons : Buttons := {}
  player : Player := {}
  ready : Bool := false
  mapWindow : Window := {}
  textWindow : Window := {}
  text : Option Bytes := none
  colors : DisplayColors := {}
  screen : Array Cell := Array.replicate 1000 {}
  ram : Array UInt8 := Array.replicate 65536 0
  effects : List Effect := []
  deriving Repr, DecidableEq

namespace Game

def note (g : Game) (e : Effect) : Game :=
  { g with effects := g.effects ++ [e] }

def level (g : Game) : LevelImage :=
  g.shelf.level g.choice

/-- Chooses a level. An image that is not valid is not taken. -/
def choose (g : Game) (i : Nat) : Game :=
  if (g.shelf.level (.other i)).isValid then { g with choice := .other i } else g

def peek (g : Game) (address : Nat) : UInt8 :=
  g.ram.getD address 0

def poke (g : Game) (address : Nat) (value : UInt8) : Game :=
  { g with ram := g.ram.setIfInBounds address value }

def pokeAll (g : Game) (address : Nat) (values : Bytes) : Game :=
  { g with
    ram := values.zipIdx.foldl (fun ram (value, i) => ram.setIfInBounds (address + i) value) g.ram }

/-! Addresses in the memory of the machine -/

def displayBank : Nat := 0x4000

def screenAddress : Nat := 0x4400

def spritePointers : Nat := 0x47F8

def charsetAddress : Nat := 0x6000

def spriteAddress : Nat := 0x7000

def displayControl : Nat := 0xD016

def displayPointers : Nat := 0xD018

def bankSelect : Nat := 0xDD00

end Game

end EscapeRoom
