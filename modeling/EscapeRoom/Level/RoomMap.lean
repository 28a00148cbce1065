import EscapeRoom.Bytes
import EscapeRoom.Level.Issue

/-!
# Room maps

The rows of a room's map are turned into one tile id per cell, row by row from the top left. A
character stands for a tile, or for a stamp: then its cell is the top left corner of a block of the same
character that the stamp fills.
-/

namespace EscapeRoom.Level

/-- A row of a map with as many characters as the level is wide. -/
structure MapRow where
  line : Nat
  chars : List Char
  deriving Repr, DecidableEq

/-- The tile ids of the cells that are filled so far, row by row. -/
structure Canvas where
  width : Nat
  height : Nat
  cells : Array (Option Int)
  deriving Repr, DecidableEq

namespace Canvas

def blank (width height : Nat) : Canvas :=
  ⟨width, height, Array.replicate (width * height) none⟩

def get? (c : Canvas) (x y : Nat) : Option Int :=
  (c.cells[y * c.width + x]?).join

def set (c : Canvas) (x y : Nat) (id : Int) : Canvas :=
  { c with cells := c.cells.setIfInBounds (y * c.width + x) (some id) }

end Canvas

def positions (width height : Nat) : List (Nat × Nat) :=
  (List.range height).flatMap fun y => (List.range width).map fun x => (x, y)

/-- The rows of the right length; the others are reported. -/
def fittingRows (level : Level) (room : Room) : Compiling (List MapRow) := do
  let rows ← room.map.zipIdx.mapM fun ((line, text), row) => do
    let chars := text.toList
    if (chars.length : Int) = level.width then return some { line, chars }
    Report.report { cause := .mapWidth room.id row chars.length level.width, line }
    return none
  return rows.filterMap id

/-- Whether a stamp that begins at a cell stays within the level. -/
def stampFits (level : Level) (stamp : Stamp) (x y : Nat) : Bool :=
  x + stamp.width ≤ level.width && y + stamp.height ≤ level.height

/-- Every cell of a stamp's block has to show its character; rows that are missing do not count. -/
def checkBlock (room : Room) (rows : List MapRow) (key : String) (stamp : Stamp) (x y : Nat) :
    Compiling Unit :=
  (positions stamp.width.toNat stamp.height.toNat).forM fun (dx, dy) =>
    match rows[y + dy]? with
    | none => pure ()
    | some row =>
      Report.reportIf ((row.chars[x + dx]?).map String.singleton != some key)
        { cause := .stampBroken room.id key stamp.width stamp.height x y, line := row.line }

/-- The cells of a stamp's block are filled where they are free. -/
def fillBlock (room : Room) (rows : List MapRow) (key : String) (stamp : Stamp) (x y : Nat)
    (canvas : Canvas) : Compiling Canvas :=
  (positions stamp.width.toNat stamp.height.toNat).zipIdx.foldlM (fun canvas ((dx, dy), i) => do
    let (x, y) := (x + dx, y + dy)
    match canvas.get? x y, rows[y]? with
    | none, _ => return canvas.set x y (stamp.tiles.getD i 0)
    | some _, some row =>
      Report.report { cause := .stampOverlap room.id key x y, line := row.line }
      return canvas
    | some _, none => Report.breakOff .belowMap) canvas

def placeStamp (level : Level) (room : Room) (rows : List MapRow) (row : MapRow) (key : String)
    (stamp : Stamp) (x y : Nat) (canvas : Canvas) : Compiling Canvas := do
  Report.reportIf (level.tiles.has key) { cause := .stampIsTile room.id key, line := row.line }
  if stampFits level stamp x y then
    checkBlock room rows key stamp x y
    fillBlock room rows key stamp x y canvas
  else
    Report.report { cause := .stampOutside room.id key x y, line := row.line }
    return canvas

def placeTile (level : Level) (room : Room) (row : MapRow) (key : String) (x y : Nat)
    (canvas : Canvas) : Compiling Canvas :=
  match level.tiles.get? key with
  | some id => pure (canvas.set x y id)
  | none => do
    Report.report { cause := .mapChar room.id key, line := row.line }
    return canvas.set x y 0

/-- Fills what begins at a cell, unless the cell is filled already. -/
def placeAt (level : Level) (room : Room) (rows : List MapRow) (canvas : Canvas) (x y : Nat) :
    Compiling Canvas :=
  match canvas.get? x y, rows[y]? with
  | none, some row =>
    match row.chars[x]? with
    | none => pure canvas
    | some c =>
      let key := String.singleton c
      match level.stamps.get? key with
      | some stamp => placeStamp level room rows row key stamp x y canvas
      | none => placeTile level room row key x y canvas
  | _, _ => pure canvas

/-- The tile id of a cell; a cell that is not filled is reported. -/
def resolvedAt (room : Room) (rows : List MapRow) (canvas : Canvas) (x y : Nat) : Compiling UInt8 :=
  match canvas.get? x y with
  | some id => pure (byteOf id)
  | none => do
    let line := ((rows[y]?).map (·.line)).getD room.line
    Report.report { cause := .mapUnresolved room.id x y, line }
    return 0

def mapBytes (level : Level) (room : Room) : Compiling Bytes := do
  Report.reportIf ((room.map.length : Int) != level.height)
    { cause := .mapHeight room.id room.map.length level.height, line := room.line }
  let rows ← fittingRows level room
  let cells := positions level.width.toNat level.height.toNat
  let canvas ← cells.foldlM (fun canvas (x, y) => placeAt level room rows canvas x y)
    (Canvas.blank level.width.toNat level.height.toNat)
  cells.mapM fun (x, y) => resolvedAt room rows canvas x y

end EscapeRoom.Level
