import EscapeRoom.TileKit.TilesetText

/-!
# The catalogue of a kit

A kit comes with pictures of its tiles and of its objects, a picture that shows where the tiles were
taken, and a page that lists them all.
-/

namespace EscapeRoom.TileKit

def isImageNameChar (c : Char) : Bool :=
  Text.isAsciiAlphanumeric c || c = '_'

/-- A text in which every run of characters that do not belong into a file name is one underscore. -/
def joinImageName (inside : Bool) : List Char → List Char
  | [] => []
  | c :: rest =>
    if isImageNameChar c then c :: joinImageName false rest
    else if inside then joinImageName true rest
    else '_' :: joinImageName true rest

def imageBase (instead name : String) : String :=
  match Text.dropUnderscores (joinImageName false name.toList) with
  | [] => instead
  | cs => Text.lower (String.ofList cs)

def tileImageName (t : KitTile) : String :=
  imageBase "tile" t.name ++ ".png"

structure Catalogue where
  name : String
  locations : String
  /-- The way to the source picture, if there is one. -/
  source : Option String
  colors : SharedColors
  charset : Charset
  tiles : List KitTile

namespace Catalogue

def tileRow (c : Catalogue) (t : KitTile) : String :=
  "| ![](\x7btiles\x7d/" ++ tileImageName t ++ ") | " ++ t.name ++ " | " ++
    Text.replace t.flags "|" " &#124; " ++ " | (" ++ toString (t.x / 16) ++ "," ++ toString (t.y / 16) ++
    ") | " ++ t.role ++ " | " ++ idText t.variant ++ " | " ++ Listing.slotText c.charset t ++ " | " ++
    Listing.colorText t ++ " |  |\n"

def tilesPage (c : Catalogue) : String :=
  let source := match c.source with
    | some path => "![source image](" ++ path ++ ")\n\n"
    | none => ""
  Text.replace
    ("# " ++ c.name ++ " Tiles\n\n## Overview\n\n![tile locations](" ++ c.locations ++ ")\n\n" ++
      source ++ "## Palette\n\n- Background: " ++ Listing.colorName c.colors.background ++
      "\n- MC1: " ++ Listing.colorName c.colors.multicolor1 ++
      "\n- MC2: " ++ Listing.colorName c.colors.multicolor2 ++
      "\n\n| Tile | Name | Flags | Grid | Role | Variant | Chars | Colors | Reuse |\n" ++
      "| --- | --- | --- | --- | --- | --- | --- | --- | --- |\n" ++
      String.join (c.tiles.map (tileRow c)))
    "\x7btiles\x7d" "tiles"

def tileRaster (c : Catalogue) (t : KitTile) : Raster :=
  (t.block.inCharset c.charset).raster c.colors

def tileImages (c : Catalogue) : List (String × Raster) :=
  c.tiles.map fun t => (tileImageName t, (c.tileRaster t).enlarge 4)

def locationImage (c : Catalogue) : Raster :=
  (c.tiles.foldl (fun r t => r.overlay t.x.toNat t.y.toNat (c.tileRaster t))
    (Raster.filled 320 200 c.colors.background)).enlarge 2

structure ObjectPicture where
  first : KitTile
  parts : Table (Int × Int) KitTile

def objectPictures (c : Catalogue) : Except KitError (List ObjectPicture) := do
  let table ← (c.tiles.filter (·.isOfObject)).foldlM
    (fun (table : Table ObjectKey ObjectPicture) t => do
      let key ← objectKey t.variant
      let o := (table.get? key).getD ⟨t, []⟩
      return table.put key { o with parts := o.parts.put t.offset t }) []
  return table.values

namespace ObjectPicture

def offsets (o : ObjectPicture) : List (Nat × Nat) :=
  let (w, h) := o.first.objectSize
  (List.range h.toNat).flatMap fun dy => (List.range w.toNat).map fun dx => (dx, dy)

def found (o : ObjectPicture) : List ((Nat × Nat) × KitTile) :=
  o.offsets.filterMap fun (dx, dy) =>
    (o.parts.get? ((dx : Int), (dy : Int))).map fun t => ((dx, dy), t)

def raster (o : ObjectPicture) (c : Catalogue) : Raster :=
  let (w, h) := o.first.objectSize
  (o.found.foldl (fun r ((dx, dy), t) => r.overlay (dx * 16) (dy * 16) (c.tileRaster t))
    (Raster.filled (w.toNat * 16) (h.toNat * 16) c.colors.background)).enlarge 4

/-- The file of an object's picture; the id has to be a text. -/
def imageName (o : ObjectPicture) : Except KitError String :=
  match o.first.variant with
  | .str s => .ok ("object_" ++ imageBase "object" s ++ ".png")
  | _ => .error .idNotName

def row (o : ObjectPicture) (imageName : String) : String :=
  let label := Text.trim (idText o.first.variant ++ " " ++ o.first.description)
  let parts := o.found.map fun (_, t) => "![](tiles/" ++ tileImageName t ++ ")"
  "| " ++ label ++ " | " ++ o.first.type ++ " | " ++ Text.join " " parts ++ " | ![](tiles/" ++
    imageName ++ ") |\n"

end ObjectPicture

def objectsHeading : String :=
  "\n## Objects\n\n| Object | Type | Parts | Combined |\n| --- | --- | --- | --- |\n"

/-- What a program needs to show the tiles, and how many characters and tiles there are. -/
def infoText (c : Catalogue) (picture spec : String) : String :=
  let color (n : Nat) := toString n ++ " (" ++ (Color.name? n).getD "" ++ ")"
  Text.join "\n" [
    "INPUT: " ++ picture,
    "SOURCE: " ++ spec,
    "",
    "Multicolor character mode setup:",
    "  $D016 bit4 = 1",
    "  $D021 BG  = " ++ color c.colors.background,
    "  $D022 MC1 = " ++ color c.colors.multicolor1,
    "  $D023 MC2 = " ++ color c.colors.multicolor2,
    "",
    "Chars used: " ++ toString c.charset.kept.length,
    "Tiles used: " ++ toString c.tiles.length]

end Catalogue

end EscapeRoom.TileKit
