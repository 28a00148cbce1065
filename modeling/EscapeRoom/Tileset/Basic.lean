import EscapeRoom.Table

/-!
# Tilesets

A metatile is a block of two by two characters with colours and flags. A tileset names its metatiles,
gives the three colours that all of them share, and may bind map characters to metatiles or to
objects, which are rectangles of metatiles.
-/

namespace EscapeRoom

/-- Four values: top left, top right, bottom left, bottom right. -/
structure Quad (α : Type) where
  topLeft : α
  topRight : α
  bottomLeft : α
  bottomRight : α
  deriving Repr, DecidableEq, Inhabited

namespace Quad

variable {α : Type}

def toList (q : Quad α) : List α :=
  [q.topLeft, q.topRight, q.bottomLeft, q.bottomRight]

def ofList? : List α → Option (Quad α)
  | [a, b, c, d] => some ⟨a, b, c, d⟩
  | _ => none

def all (a : α) : Quad α :=
  ⟨a, a, a, a⟩

def map {β : Type} (f : α → β) (q : Quad α) : Quad β :=
  ⟨f q.topLeft, f q.topRight, f q.bottomLeft, f q.bottomRight⟩

@[simp] theorem ofList?_toList (q : Quad α) : ofList? q.toList = some q := rfl

@[simp] theorem length_toList (q : Quad α) : q.toList.length = 4 := rfl

end Quad

/-- One colour for the whole metatile, or one for each character. -/
inductive ColorMode where
  | single
  | perQuadrant
  deriving Repr, DecidableEq, Inhabited

def ColorMode.code : ColorMode → Nat
  | .single => 0
  | .perQuadrant => 1

/-- The properties a metatile can have, in the order of their bits. -/
def flagNames : List String :=
  ["SOLID", "DECOR", "STANDABLE", "LADDER", "DOOR", "INTERACTABLE", "FLOOR", "HAZARD"]

def flagBit? (name : String) : Option Nat :=
  flagNames.findIdx? (· == name)

structure Tile where
  id : Int
  name : String
  chars : Quad Int
  colorMode : ColorMode
  colors : Quad Int
  flags : Nat
  deriving Repr, DecidableEq, Inhabited

structure ObjectDef where
  name : String
  width : Int
  height : Int
  tiles : List String
  char : Option String := none
  deriving Repr, DecidableEq, Inhabited

/-- An object bound to a map character, with the ids of its metatiles. -/
structure Stamp where
  name : String
  width : Int
  height : Int
  tiles : List Int
  char : String
  deriving Repr, DecidableEq, Inhabited

structure Tileset where
  name : String
  tileWidth : Int := 2
  tileHeight : Int := 2
  declaredCount : Int := 0
  background : Int := 0
  multicolor1 : Int := 0
  multicolor2 : Int := 0
  charset : String := ""
  tiles : Table Int Tile := []
  deriving Repr, DecidableEq, Inhabited

def Tileset.sortedTiles (ts : Tileset) : List Tile :=
  (ts.tiles.mergeSort fun a b => decide (a.1 ≤ b.1)).map (·.2)

structure LinkedTileset extends Tileset where
  names : Table String Int := []
  objects : Table String ObjectDef := []
  charmap : Table String Int := []
  stamps : Table String Stamp := []
  deriving Repr, DecidableEq, Inhabited

structure ListedTileset extends Tileset where
  objects : List ObjectDef := []
  deriving Repr, DecidableEq, Inhabited

end EscapeRoom
