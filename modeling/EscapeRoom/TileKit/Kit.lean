import EscapeRoom.TileKit.Block
import EscapeRoom.TileKit.Spec

/-!
# Kits of tiles

The entries of a specification become tiles when their blocks are cut out of a picture. Tiles that are
parts of objects are grouped by the ids of the objects. An id may be any JSON value: ids that do not
count as given make no group, and equal numbers are the same id.
-/

namespace EscapeRoom.TileKit

inductive KitError where
  | noColorName (color : Nat)
  /-- An object id that has to be a text for a comment and is none. -/
  | idNotText
  | idNotComparable
  | idNotName
  | tooManyTiles
  deriving Repr, DecidableEq

def KitError.message : KitError → String
  | .noColorName color => "there is no colour " ++ toString color
  | .idNotText => "an object id is no text"
  | .idNotComparable => "an object id cannot be compared"
  | .idNotName => "an object id cannot name a file"
  | .tooManyTiles => "there are more tiles than a byte can number"

structure KitTile where
  id : String
  name : String
  flags : String
  role : String
  variant : Json
  x : Int
  y : Int
  part : Option ObjectPart
  block : Block

def KitTile.ofEntry (e : Entry) (block : Block) : KitTile :=
  { id := e.id
    name := tileName e.name
    flags := e.flags
    role := (e.part.map (·.type)).getD ""
    variant := (e.part.map (·.objectId)).getD (.str "")
    x := e.x
    y := e.y
    part := e.part
    block }

namespace KitTile

def isOfObject (t : KitTile) : Bool :=
  isGiven t.variant

def type (t : KitTile) : String :=
  (t.part.map (·.type)).getD ""

def description (t : KitTile) : String :=
  (t.part.map (·.description)).getD ""

def objectSize (t : KitTile) : Int × Int :=
  (t.part.map fun p => (p.width, p.height)).getD (1, 1)

def offset (t : KitTile) : Int × Int :=
  (t.part.map fun p => (p.dx, p.dy)).getD (0, 0)

end KitTile

inductive ObjectKey where
  | text (s : String)
  | integer (n : Int)
  | fraction (x : Number.Double)
  deriving Repr, DecidableEq

def realKey (x : Number.Double) : ObjectKey :=
  match x.integer? with
  | some n => .integer n
  | none => .fraction x

def objectKey : Json → Except KitError ObjectKey
  | .str s => .ok (.text s)
  | .int n => .ok (.integer n)
  | .bool b => .ok (.integer (if b then 1 else 0))
  | .real x => .ok (realKey x)
  | _ => .error .idNotComparable

def idText : Json → String
  | .str s => s
  | .bool b => if b then "True" else "False"
  | .real x => x.text
  | v => v.compact

structure ObjectGroup where
  first : KitTile
  others : List KitTile := []

namespace ObjectGroup

def tiles (g : ObjectGroup) : List KitTile :=
  g.first :: g.others

def size (g : ObjectGroup) : Int × Int :=
  g.first.objectSize

def label (g : ObjectGroup) : String :=
  let t := g.others.getLast?.getD g.first
  if t.description.isEmpty then idText t.variant else t.description

def name (g : ObjectGroup) : String :=
  let types := (g.tiles.map (·.type)).filter (! String.isEmpty ·)
  tileName (types.getLast?.getD "OBJECT")

end ObjectGroup

/-- The groups of tiles that belong to objects, in the order of their first tiles. -/
def groupsOf (tiles : List KitTile) : Except KitError (List ObjectGroup) := do
  let table ← (tiles.filter (·.isOfObject)).foldlM (fun (t : Table ObjectKey ObjectGroup) tile => do
    let key ← objectKey tile.variant
    return t.put key (match t.get? key with
      | some g => { g with others := g.others ++ [tile] }
      | none => { first := tile })) []
  return table.values

/-- The tiles of entries, or what is wrong with the first sample that lies outside the picture. -/
def sampleAll (r : Raster) (s : SharedColors) (entries : List Entry) :
    Except String (List KitTile) :=
  entries.mapM fun e =>
    match Block.sample? r s e.x e.y with
    | some block => .ok (KitTile.ofEntry e block)
    | none => .error (e.name ++ ": " ++ Block.outOfBoundsMessage e.x e.y)

def patterns (tiles : List KitTile) : List Bytes :=
  tiles.flatMap fun t => t.block.chars.toList

end EscapeRoom.TileKit
