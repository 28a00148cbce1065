import EscapeRoom.Text.Replace
import EscapeRoom.TileKit.Kit

/-!
# The tileset of a kit

The text of a tileset for a kit: a character for every tile and every object, the objects as lists of
tiles, and the tiles themselves. Tiles of objects of one cell are known by the kind of the object.
-/

namespace EscapeRoom.TileKit

def seedChars : List (String × Char) := [
  ("WALL", '#'), ("FLOOR", '='), ("PLATFORM", '='), ("PIPE", 'P'), ("LADDER", 'H'), ("DOOR", 'D'),
  ("EXIT", 'E'), ("TERMINAL", 'T'), ("VENT", 'V'), ("TRIM", '_'), ("SEAM", '|'), ("GRILLE", 'G'),
  ("HAZARD", '!'), ("VOID", '.'), ("CABLE", '-')]

def freeChars : List Char :=
  ".#=HPTVDE_|G!-=+0123456789ABCDEFGHIJKLMNOPQRSTUVWXYZabcdefghijklmnopqrstuvwxyz".toList

/-- A map character for a name: one that suits it, else the first one that is not taken. -/
def pickChar (taken : List Char) (name : String) : Char :=
  let suits := seedChars.filterMap fun (word, c) => if Text.occursIn word name then some c else none
  ((suits ++ freeChars).find? (! taken.contains ·)).getD '?'

structure CharmapLine where
  name : String
  comment : String

/-- The text of lines and the characters that are taken after them. -/
def charmapText (taken : List Char) : List CharmapLine → String × List Char
  | [] => ("", taken)
  | line :: rest =>
    let c := pickChar taken line.name
    let (text, taken) := charmapText (c :: taken) rest
    (String.singleton c ++ " " ++ line.name ++ line.comment ++ "\n" ++ text, taken)

/-- The id of an object as a comment tells it: the id of a tile is told by the name of the tile, and
`NONE` is not told. -/
def variantText (names : Table String String) (variant : Json) : Except KitError String :=
  match variant with
  | .str s => .ok (if Text.upper s = "NONE" then "" else names.getD s s)
  | _ => .error .idNotText

def tileComment (names : Table String String) (role : String) (variant : Json) :
    Except KitError String := do
  let variant ← variantText names variant
  let parts := [role, if variant.isEmpty then "" else "[" ++ variant ++ "]"].filter (! String.isEmpty ·)
  return if parts.isEmpty then "" else " ; " ++ Text.join " " parts

def isSingle (size : Int × Int) : Bool :=
  size = (1, 1)

def aliasOf (t : KitTile) : KitTile :=
  { t with
    name := tileName (if t.type.isEmpty then "OBJECT" else t.type)
    role := Text.join " - " ([t.type, t.description].filter (! String.isEmpty ·)) }

structure Listing where
  groups : List ObjectGroup
  plain : List KitTile
  aliases : List KitTile

def Listing.of (tiles : List KitTile) : Except KitError Listing := do
  let groups ← groupsOf tiles
  return { groups
           plain := tiles.filter (! ·.isOfObject)
           aliases := (groups.filter (isSingle ·.size)).flatMap (·.tiles.map aliasOf) }

namespace Listing

def partsOf (g : ObjectGroup) : List KitTile :=
  g.tiles.filter (! isSingle ·.objectSize)

def tiles (l : Listing) : List KitTile :=
  l.plain ++ l.groups.flatMap partsOf ++ l.aliases

/-- Lines under a heading, if there are any. -/
def headed (heading : String) (lines : List CharmapLine) (taken : List Char) : String × List Char :=
  if lines.isEmpty then ("", taken)
  else
    let (text, taken) := charmapText taken lines
    (heading ++ text ++ "\n", taken)

def charmap (l : Listing) (names : Table String String) : Except KitError String := do
  let line (t : KitTile) : Except KitError CharmapLine := do
    return ⟨t.name, ← tileComment names t.role t.variant⟩
  let (plain, taken) := headed "; NON-OBJECT TILES\n" (← l.plain.mapM line) []
  let (single, taken) := headed "; 1x1 OBJECT TILES\n" (← l.aliases.mapM line) taken
  let stamps := (l.groups.filter (! isSingle ·.size)).map fun g =>
    { name := g.name, comment := " ; " ++ g.label : CharmapLine }
  return "CHARMAP\n" ++ plain ++ single ++ (charmapText taken stamps).1 ++ "END\n\n"

/-- The name of the tile at an offset in an object; the last one that is there counts. -/
def nameAt? (g : ObjectGroup) (dx dy : Nat) : Option String :=
  ((g.tiles.filter fun t => t.offset = ((dx : Int), (dy : Int))).getLast?).map (·.name)

/-- The line of an object, if it has all its tiles. -/
def objectLine (g : ObjectGroup) : String :=
  let (w, h) := g.size
  let names := (List.range h.toNat).flatMap fun dy =>
    (List.range w.toNat).map fun dx => nameAt? g dx dy
  match names.mapM id with
  | none => ""
  | some names =>
    g.name ++ " size=" ++ toString w ++ "x" ++ toString h ++ " tiles=" ++ Text.join "," names ++ "\n"

def objects (l : Listing) : String :=
  if l.groups.isEmpty then ""
  else
    "OBJECTS\n" ++ String.join ((l.groups.filter (! isSingle ·.size)).map objectLine) ++ "END\n\n"

def slotText (c : Charset) (t : KitTile) : String :=
  Text.join "," ((t.block.slots c).toList.map fun (n : Nat) => "0x" ++ Number.hexUpper 2 n)

def colorName (color : Nat) : String :=
  Text.upper ((Color.name? color).getD "")

def colorText (t : KitTile) : String :=
  Text.join "," (t.block.colors.toList.map colorName)

def tileLine (c : Charset) (t : KitTile) : String :=
  let flags := Text.join "|" ((Text.parts '|' t.flags).filter (! String.isEmpty ·))
  t.name ++ " chars=" ++ slotText c t ++ " colors=" ++ colorText t ++ " flags=" ++ flags ++ "\n"

def roleLine (t : KitTile) : String :=
  if t.role.isEmpty then "" else "; " ++ t.role ++ "\n"

def tilesText (l : Listing) (c : Charset) : String :=
  let lines (tiles : List KitTile) := String.join (tiles.map (tileLine c))
  let plain := if l.plain.isEmpty then "" else
    "; NON-OBJECT TILES\n" ++ String.join (l.plain.map fun t => roleLine t ++ tileLine c t)
  let parts := l.groups.map fun g =>
    if (partsOf g).isEmpty then "" else "; OBJECT " ++ g.label ++ "\n" ++ lines (partsOf g)
  let aliases := if l.aliases.isEmpty then "" else "; 1x1 OBJECT TILE ALIASES\n" ++ lines l.aliases
  "TILES\n" ++ plain ++ String.join parts ++ aliases ++ "\nEND\n\nEND\n"

end Listing

def colorNameOf (color : Nat) : Except KitError String :=
  match Color.name? color with
  | some name => .ok (Text.upper name)
  | none => .error (.noColorName color)

/-- The line that names the tileset, its shared colours and its charset. -/
def headerText (name charset : String) (s : SharedColors) : Except KitError String := do
  return "TSET name=\"" ++ name ++ "\" tileSize=2x2 bgColor=" ++ (← colorNameOf s.background) ++
    " mc1Color=" ++ (← colorNameOf s.multicolor1) ++ " mc2Color=" ++ (← colorNameOf s.multicolor2) ++
    " charset=" ++ charset ++ "\n\n"

def tilesetText (name charsetPath : String) (s : SharedColors) (c : Charset) (tiles : List KitTile) :
    Except KitError (Listing × String) := do
  let header ← headerText name charsetPath s
  let listing ← Listing.of tiles
  let names := Table.ofEntries (tiles.map fun t => (t.id, t.name))
  let charmap ← listing.charmap names
  return (listing, "; Auto-generated from MD spec. Comments annotate charmap and tile intent.\n\n" ++
    header ++ charmap ++ listing.objects ++ listing.tilesText c)

/-- The number of the first tile that is nearest to every block of the picture. -/
def tileMap (r : Raster) (s : SharedColors) (blocks : List Block) : Except KitError Bytes :=
  ((List.range 12).flatMap fun my => (List.range 20).map fun mx => (mx, my)).mapM
    fun (mx, my) =>
      let nearest : Option ((Block × Nat) × Nat) := do
        let block ← Block.sample? r s (mx * 16 : Nat) (my * 16 : Nat)
        least? (fun (b : Block × Nat) => block.distance b.1) blocks.zipIdx
      let number := (nearest.map (·.1.2)).getD 0
      if number < 256 then .ok (UInt8.ofNat number) else .error .tooManyTiles

end EscapeRoom.TileKit
