import EscapeRoom.Line
import EscapeRoom.Path
import EscapeRoom.Text.Case
import EscapeRoom.Tileset.Issue

/-!
# Reading the lines of a tileset file

A header line `TSET` is followed by sections `TILES`, `CHARMAP` and `OBJECTS`, each up to a line `END`, and
by single `TILE` lines. Reading keeps what is known so far, line by line; map characters and objects are
noted and linked at the end of the file.
-/

namespace EscapeRoom.Tileset

structure Surroundings where
  path : String
  isFile : String → Bool

/-- The charset's file: next to the tileset, or in the directory above it. -/
def Surroundings.charsetPath (s : Surroundings) (charset : String) : String :=
  if Path.isAbsolute charset then charset
  else
    let beside := Path.join (Path.directory s.path) charset
    if s.isFile beside then beside
    else Path.join (Path.join (Path.directory s.path) "..") charset

/-- Which colour names are known, and whether a second header keeps the tile names seen before it. -/
structure Dialect where
  colors : Table String Int
  keepsNames : Bool

inductive Part where
  | tiles
  | charmap
  | objects
  deriving Repr, DecidableEq

def partNamed? (head : String) : Option Part :=
  if head = "TILES" then some .tiles
  else if head = "CHARMAP" then some .charmap
  else if head = "OBJECTS" then some .objects
  else none

structure CharmapEntry where
  line : Nat
  key : String
  target : String
  deriving Repr, DecidableEq

structure ObjectEntry where
  line : Nat
  text : String
  name : String
  deriving Repr, DecidableEq

/-- What the last lines said about a tile; a line that fits nowhere is read as going on with it. -/
structure Draft where
  id : Option Int := none
  name : String := ""
  fields : Fields := []
  deriving Repr, DecidableEq

structure Progress where
  tileset : Option Tileset := none
  names : Table String Int := []
  part : Option Part := none
  nextId : Int := 0
  charmap : List CharmapEntry := []
  objects : List ObjectEntry := []
  draft : Draft := {}
  deriving Repr, DecidableEq

def reportAt (line : Line) (cause : Cause) (column : Nat) : Reading Unit :=
  Report.report ⟨cause, line.number, column⟩

def reportAtIf (line : Line) (b : Bool) (cause : Cause) (column : Nat) : Reading Unit :=
  Report.reportIf b ⟨cause, line.number, column⟩

def outside (low high n : Int) : Bool :=
  !(low ≤ n && n ≤ high)

/-- The name by which a tile is looked up: upper case, without a leading `TILE_`. -/
def nameKey (name : String) : String :=
  let key := Text.upper (Text.trim name)
  if Text.startsWith key "TILE_" then Text.dropChars 5 key else key

def readSharedColor (line : Line) (d : Dialect) (fields : Fields) (color : SharedColor) :
    Reading Int :=
  let text := fields.getD color.key "0"
  valueOr (parseColor d.colors text) 0 fun _ =>
    ⟨.badSharedColor color text, line.number, Fields.columnOfValue line.raw color.key⟩

def readSizeTexts (line : Line) (fields : Fields) : Reading (String × String × String) := do
  reportAtIf line (!fields.has "tileSize") .tileSizeMissing (Text.columnOf line.raw "TSET")
  let size := Text.lower (fields.getD "tileSize" "2x2")
  match Text.cut 'x' size with
  | some (width, height) => return (size, width, height)
  | none =>
    reportAt line .tileSizeShape (Text.columnOf line.raw "tileSize")
    return ("2x2", "2", "2")

def readCount (line : Line) (fields : Fields) : Reading Int :=
  match fields.get? "count" with
  | none => pure 0
  | some text =>
    valueOr (parseNumber text) 0 fun _ =>
      ⟨.badCount text, line.number, Fields.columnOfValue line.raw "count"⟩

def readSizeNumbers (line : Line) (size width height : String) : Reading (Int × Int) :=
  match Number.parseLiteral .decimal width, Number.parseLiteral .decimal height with
  | .ok w, .ok h => pure (w, h)
  | _, _ => do
    reportAt line (.tileSizeDigits size) (Text.columnOf line.raw "tileSize")
    return (2, 2)

def readCharset (line : Line) (s : Surroundings) (fields : Fields) : Reading String :=
  match fields.get? "charset" with
  | none => pure ""
  | some charset => do
    reportAtIf line (!s.isFile (s.charsetPath charset)) (.charsetNotFound charset)
      (Fields.columnOfValue line.raw "charset")
    return charset

def readHeader (line : Line) (d : Dialect) (s : Surroundings) (fields : Fields) :
    Reading Tileset := do
  let (size, width, height) ← readSizeTexts line fields
  let declaredCount ← readCount line fields
  let (tileWidth, tileHeight) ← readSizeNumbers line size width height
  reportAtIf line (tileWidth != 2 || tileHeight != 2) .tileSizeUnsupported
    (Text.columnOf line.raw "tileSize")
  for color in [SharedColor.background, .multicolor1, .multicolor2] do
    reportAtIf line (!fields.has color.key) (.colorMissing color) (Text.columnOf line.raw "TSET")
  let background ← readSharedColor line d fields .background
  let multicolor1 ← readSharedColor line d fields .multicolor1
  let multicolor2 ← readSharedColor line d fields .multicolor2
  for (color, value) in [(SharedColor.background, background), (.multicolor1, multicolor1),
      (.multicolor2, multicolor2)] do
    reportAtIf line (outside 0 15 value) (.sharedColorRange color)
      (Fields.columnOfValue line.raw color.key)
  let charset ← readCharset line s fields
  return { name := fields.getD "name" (Path.baseName s.path)
           tileWidth, tileHeight, declaredCount, background, multicolor1, multicolor2, charset }

def clampId (id : Int) : Int :=
  max 0 (min id 255)

def checkId (line : Line) (id : Int) : Reading Int :=
  if outside 0 255 id then do
    reportAt line .tileIdRange (Fields.columnOfValue line.raw "id")
    return clampId id
  else pure id

def readChars (line : Line) (fields : Fields) : Reading (Quad Int) := do
  let column := Fields.columnOfValue line.raw "chars"
  let chars ← match fields.get? "chars" with
    | none => do
      reportAt line (.charsMissing line.text) (Text.columnOf line.raw "chars")
      pure (Quad.all 0)
    | some text =>
      valueOr (parseQuad parseScreenCode text) (Quad.all 0) fun e =>
        ⟨.badList e, line.number, column⟩
  for c in chars.toList do
    reportAtIf line (outside 0 255 c) (.charRange line.text) column
  return chars

def readColors (line : Line) (d : Dialect) (fields : Fields) : Reading (ColorMode × Quad Int) := do
  let (mode, colors) ← match fields.get? "colors", fields.get? "color" with
    | some text, _ => do
      let colors ← valueOr (parseQuad (parseColor d.colors) text) (Quad.all 0) fun e =>
        ⟨.badList e, line.number, Fields.columnOfValue line.raw "colors"⟩
      pure (ColorMode.perQuadrant, colors)
    | none, some text => do
      let color ← valueOr (parseColor d.colors text) 0 fun _ =>
        ⟨.badColor text, line.number, Fields.columnOfValue line.raw "color"⟩
      pure (ColorMode.single, (⟨color, 0, 0, 0⟩ : Quad Int))
    | none, none => do
      reportAt line (.colorsMissing line.text) (Text.columnOf line.raw "TILE")
      pure (ColorMode.single, Quad.all 0)
  for c in colors.toList do
    reportAtIf line (outside 0 15 c) (.colorRange line.text) (Fields.columnOfValue line.raw "color")
  return (mode, colors)

def readFlags (line : Line) (fields : Fields) : Reading Nat :=
  (Text.parts '|' (fields.getD "flags" "")).foldlM (fun mask part => do
    let name := Text.upper (Text.trim part)
    if name.isEmpty then return mask
    match flagBit? name with
    | some bit => return mask ||| 1 <<< bit
    | none =>
      reportAt line (.unknownFlag name line.text) (Text.columnOf line.raw name)
      Report.breakOff (.unknownFlag name)) 0

/-- A tile is kept unless its name or its id is taken. -/
def addTile (line : Line) (d : Dialect) (p : Progress) (ts : Tileset) (id : Int) (name : String)
    (fields : Fields) : Reading Progress := do
  let id ← checkId line id
  let name := if name.isEmpty then "TILE_" ++ toString id else name
  let chars ← readChars line fields
  let (colorMode, colors) ← readColors line d fields
  let flags ← readFlags line fields
  let key := nameKey name
  reportAtIf line (p.names.has key) (.duplicateName name) (Text.columnOf line.raw name)
  reportAtIf line (ts.tiles.has id) (.duplicateId id) (Text.columnOf line.raw "id")
  let p := { p with draft := ⟨some id, name, fields⟩ }
  if p.names.has key || ts.tiles.has id then return p
  return { p with
    names := p.names.put key id
    tileset := some { ts with
      tiles := ts.tiles.put id { id, name, chars, colorMode, colors, flags } } }

/-- A tile in the section of tiles: a name, and an id only if the next free one is not meant. -/
def addSectionTile (line : Line) (d : Dialect) (p : Progress) (ts : Tileset) (name : String) :
    Reading Progress := do
  let fields := Fields.scan (Text.trim (Text.dropChars name.length line.text))
  let id ← match fields.get? "id" with
    | none => pure p.nextId
    | some text =>
      valueOr (parseNumber text) p.nextId fun _ =>
        ⟨.badTileId text, line.number, Fields.columnOfValue line.raw "id"⟩
  if Nat.pow 10 Number.maxDigits ≤ id.natAbs then Report.breakOff .idTooLong
  let p := { p with nextId := if p.nextId ≤ id then id + 1 else p.nextId }
  addTile line d p ts id name fields

def addLoneTile (line : Line) (d : Dialect) (p : Progress) (ts : Tileset) : Reading Progress := do
  let fields := Fields.scan line.text
  let (id, nextId) ← match fields.get? "id" with
    | none => do
      reportAt line (.tileIdMissing line.text) (Text.columnOf line.raw "TILE")
      pure (p.nextId, p.nextId + 1)
    | some text =>
      match parseNumber text with
      | .ok id => pure (id, p.nextId)
      | .error _ => do
        reportAt line (.badTileId text) (Fields.columnOfValue line.raw "id")
        pure (p.nextId, p.nextId + 1)
  let id ← checkId line id
  addTile line d { p with nextId } ts id (fields.getD "name" ("TILE_" ++ toString id)) fields

def addCharmapEntry (line : Line) (p : Progress) (parts : List String) : Reading Progress := do
  let key := parts.headD ""
  reportAtIf line (parts.length < 2) (.charmapNoName line.text) (Text.columnOf line.raw "CHARMAP")
  reportAtIf line (key.length != 1) (.charmapKey key) (Text.columnOf line.raw key)
  match parts[1]? with
  | none => Report.breakOff .noTileName
  | some target =>
    reportAtIf line (p.charmap.any (·.key == key)) (.charmapDuplicate key)
      (Text.columnOf line.raw key)
    return { p with charmap := p.charmap ++ [⟨line.number, key, nameKey target⟩] }

def addObjectEntry (line : Line) (p : Progress) (name : String) : Progress :=
  { p with
    objects := p.objects ++ [⟨line.number, line.text, name⟩]
    draft := { p.draft with name } }

def addStrayLine (line : Line) (d : Dialect) (p : Progress) (ts : Tileset) : Reading Progress := do
  reportAt line (.unexpectedLine line.text) 1
  match p.draft.id with
  | none => Report.breakOff .noTileYet
  | some id => addTile line d p ts id p.draft.name p.draft.fields

def readEntry (line : Line) (d : Dialect) (p : Progress) (ts : Tileset) (parts : List String) :
    Reading Progress :=
  let head := parts.headD ""
  if p.part = some .tiles then addSectionTile line d p ts head
  else if head = "TILE" then addLoneTile line d p ts
  else match p.part with
    | some .charmap => addCharmapEntry line p parts
    | some .objects => pure (addObjectEntry line p head)
    | _ => addStrayLine line d p ts

def defaultTileset (s : Surroundings) : Tileset :=
  { name := Path.baseName s.path }

def readLine (line : Line) (d : Dialect) (s : Surroundings) (p : Progress) : Reading Progress :=
  if line.text = "END" then pure { p with part := none }
  else
    let parts := Text.words line.text
    let head := parts.headD ""
    if head = "TSET" then do
      let fields := Fields.scan line.text
      let ts ← readHeader line d s fields
      return { p with
        tileset := some ts
        names := if d.keepsNames then p.names else []
        draft := { p.draft with name := ts.name, fields } }
    else match p.tileset with
      | none => do
        reportAt line .headerNotFirst 1
        return { p with tileset := some (defaultTileset s), part := none }
      | some ts => do
        reportAtIf line (head = "FLAGBITS") .flagBitsSection (Text.columnOf line.raw "FLAGBITS")
        match partNamed? head with
        | some part => return { p with part := some part }
        | none => readEntry line d p ts parts

def readLines (d : Dialect) (s : Surroundings) (lines : List Line) : Reading Progress :=
  lines.foldlM (fun p line => readLine line d s p) {}

end EscapeRoom.Tileset
