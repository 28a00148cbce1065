import EscapeRoom.Command.Session
import EscapeRoom.TileKit.Catalogue
import EscapeRoom.TileKit.Load

/-!
# The tile kit compiler

The command cuts tiles out of a Koala picture as a specification says, and writes a charset, a tileset, a
map of the picture and a catalogue.
-/

namespace EscapeRoom.TileKitCompiler

open TileKit

def usage : Usage :=
  { program := "koala_tilekit_compiler.py"
    argument := some ⟨"spec", true⟩
    options := [
      { names := ["--kla"] },
      { names := ["--out-dir"] },
      { names := ["--charset"] },
      { names := ["--tset"] },
      { names := ["--tmap"] },
      { names := ["--tile-map"] },
      { names := ["--info"] },
      { names := ["--fast"], kind := .switch }] }

structure Places where
  spec : String
  picture : String
  directory : String
  charset : String
  tileset : String
  map : String
  locations : String
  info : String
  charsetName : String

def Places.of (root : String) (a : Arguments) : Places :=
  let spec := Path.absolute root (a.argument.getD "")
  let base := Path.stem spec
  let given (option usual : String) : String :=
    let path := a.value option ""
    if path.isEmpty then usual else path
  let place (option usual : String) : String := Path.absolute root (given option usual)
  let analysis := "gen/analysis/" ++ base
  { spec
    picture := place "--kla" (Path.join (Path.parent spec) (base ++ ".kla"))
    directory := place "--out-dir" analysis
    charset := place "--charset" ("assets/" ++ base ++ "_chargen.bin")
    tileset := place "--tset" ("levels/" ++ base ++ ".tset")
    map := place "--tmap" (analysis ++ "/" ++ base ++ "_tmap.bin")
    locations := place "--tile-map" (analysis ++ "/" ++ base ++ "_tile_locations.png")
    info := place "--info" (analysis ++ "/" ++ base ++ "_info.txt")
    charsetName := given "--charset" ("assets/" ++ base ++ "_chargen.bin") }

def readEntries (path : String) : Act (List Entry) := do
  match loadSpec (← Act.tree) path with
  | .ok entries => return entries
  | .error (.file e) => Act.crash (Act.jsonCrash path e)
  | .error (.spec e) => Act.crash (.spec e)

def readPicture (path : String) : Act Raster := do
  match loadPicture (← Act.tree) path with
  | .ok r => return r
  | .error (.file e) => Act.crash (.file e path)
  | .error (.size n) => Act.crash (.koalaSize n path)

def cells (r : Raster) : List CharCell :=
  (List.range 25).flatMap fun cy => (List.range 40).map fun cx => r.cell (cx * 8) (cy * 8)

/-- The shared colours of a picture: the commonest one, and two more by rank or by search. -/
def sharedColors (r : Raster) (byRank : Bool) : SharedColors :=
  let (background, _, _) := Multicolor.commonest r.pixels.toList
  let (a, b) :=
    if byRank then
      match Multicolor.commonestShared (cells r) background with
      | .ok pair => pair
      | .error _ => (0, 1)
    else Multicolor.chooseShared (cells r) background
  ⟨background, a, b⟩

def orCrash {α : Type} (r : Except KitError α) : Act α :=
  match r with
  | .ok a => return a
  | .error e => Act.crash (.kit e)

/-- Writes a picture; the ending of the path has to be the one of PNG files. -/
def writePicture (path : String) (r : Raster) : Act Unit := do
  let ending := Text.lower (Path.splitExtension path).2
  if ending != ".png" && ending != ".apng" then Act.crash (.pictureFormat ending)
  Act.write path (.picture r)

def writeObjects (c : Catalogue) (tiles page : String) : Act Unit := do
  let objects ← orCrash c.objectPictures
  if objects.isEmpty then return
  let rows ← objects.mapM fun o => do
    let image ← orCrash o.imageName
    writePicture (Path.join tiles image) (o.raster c)
    return o.row image
  Act.writeText page (c.tilesPage ++ Catalogue.objectsHeading ++ String.join rows)

def writeCatalogue (p : Places) (c : Catalogue) : Act Unit := do
  let tiles := Path.join p.directory "tiles"
  let page := Path.join p.directory "tiles.md"
  Act.makeDirectories tiles
  c.tileImages.forM fun (name, r) => writePicture (Path.join tiles name) r
  Act.writeText page c.tilesPage
  Act.makeDirectories (Path.parent p.locations)
  writePicture p.locations c.locationImage
  writeObjects c tiles page
  Act.writeText p.info (c.infoText (Path.lastName p.picture) (Path.lastName p.spec))
  Act.print ("Wrote charset: " ++ p.charset)
  Act.print ("Wrote tileset: " ++ p.tileset)
  Act.print ("Wrote tmap: " ++ p.map)
  Act.print ("Wrote tiles: " ++ tiles)
  Act.print ("Wrote tiles md: " ++ page)
  Act.print ("Wrote tile map: " ++ p.locations)

/-- The way from the catalogue to the source picture, if there is one beside the specification. -/
def sourcePicture (tree : FileTree) (p : Places) : Option String :=
  let path := Path.join (Path.parent p.spec) (Path.stem p.spec ++ ".png")
  if tree.exists? path then some (Path.relative tree.rootPath path p.directory) else none

def run (words : List String) : Act Unit := do
  let a ← Act.arguments usage words
  let p := Places.of (← Act.root) a
  if Text.lower (Path.suffix p.spec) != ".json" then
    Act.fail ("Spec must be JSON: " ++ p.spec)
  let entries ← readEntries p.spec
  if entries.isEmpty then
    Act.fail ("No entries found in " ++ p.spec)
  let picture ← readPicture p.picture
  let colors := sharedColors picture (a.isOn "--fast")
  let tiles ← match sampleAll picture colors entries with
    | .ok tiles => pure tiles
    | .error message => Act.fail message
  let charset := (Charset.build (patterns tiles)).getD ⟨[], [], []⟩
  Act.makeDirectories (Path.parent p.charset)
  Act.write p.charset (.data charset.bytes)
  let (listing, text) ← orCrash (tilesetText (Path.stem p.spec) p.charsetName colors charset tiles)
  Act.makeDirectories (Path.parent p.tileset)
  Act.writeText p.tileset text
  let map ← orCrash (tileMap picture colors (listing.tiles.map (·.block.inCharset charset)))
  Act.makeDirectories p.directory
  Act.makeDirectories (Path.parent p.map)
  Act.write p.map (.data map)
  writeCatalogue p
    { name := Path.stem p.spec
      locations := Path.lastName p.locations
      source := sourcePicture (← Act.tree) p
      colors, charset
      tiles := listing.tiles }

end EscapeRoom.TileKitCompiler
