import EscapeRoom.Tileset.Lines

/-!
# Reading a tileset file

When all lines are read, the number of tiles is checked, objects are looked at, and map characters are
bound to tiles or to objects. `read` gives the linked tileset. `readListed` is the plainer reading that
keeps objects as a list; it knows fewer colour names and is meant for strict mode.
-/

namespace EscapeRoom.Tileset

def reportAtStart (b : Bool) (cause : Cause) : Reading Unit :=
  Report.reportIf b ⟨cause, 1, 1⟩

/-- How many tiles there may be: as many as declared, or any number if none is declared. -/
def tileLimit (ts : Tileset) : Int :=
  if ts.declaredCount = 0 then ts.tiles.length else ts.declaredCount

def checkCount (s : Surroundings) (p : Progress) : Reading Tileset := do
  let ts ← match p.tileset with
    | some ts => pure ts
    | none => do
      reportAtStart true .noHeader
      pure (defaultTileset s)
  let count := ts.tiles.length
  reportAtStart (count = 0) .noTiles
  let declared := tileLimit ts
  if declared < count && Nat.pow 10 Number.maxDigits ≤ declared.natAbs then Report.breakOff .idTooLong
  reportAtStart (declared < count) (.tooManyDeclared count declared)
  reportAtStart (255 < count) .tooManyTiles
  return { ts with declaredCount := declared }

def ObjectEntry.report (e : ObjectEntry) (cause : Cause) (key : String) : Reading Unit :=
  Report.report ⟨cause, e.line, Fields.columnOfValue e.text key⟩

def tileNames (text : String) : List String :=
  ((Text.parts ',' text).filter fun t => !(Text.trim t).isEmpty).map fun t =>
    Text.upper (Text.trim t)

def ObjectEntry.read (e : ObjectEntry) (names : Table String Int) : Reading (Option ObjectDef) := do
  let fields := Fields.scan (Text.trim (Text.dropChars e.name.length e.text))
  if fields.has "char" then
    e.report (.objectChar e.text) "char"
    return none
  match fields.get? "size", fields.get? "tiles" with
  | some size, some tiles =>
    let size := Text.lower size
    match Text.cut 'x' size with
    | none =>
      e.report (.objectSizeShape size) "size"
      return none
    | some (w, h) =>
      match Number.parseLiteral .decimal w, Number.parseLiteral .decimal h with
      | .ok width, .ok height =>
        let tiles := tileNames tiles
        if (tiles.length : Int) ≠ width * height then
          e.report (.objectTileCount tiles.length width height) "tiles"
          return none
        for t in tiles do
          Report.reportIf (!names.has t)
            ⟨.objectTile t, e.line, Fields.columnOfValue e.text "tiles"⟩
        return some { name := e.name, width, height, tiles }
      | _, _ =>
        e.report (.objectSizeDigits size) "size"
        return none
  | _, _ =>
    Report.report ⟨.objectFields e.text, e.line, Text.columnOf e.text "OBJECTS"⟩
    return none

def readObjects (names : Table String Int) (entries : List ObjectEntry) :
    Reading (List ObjectDef) :=
  entries.foldlM (fun objects e => do
    match ← e.read names with
    | some o => return objects ++ [o]
    | none => return objects) []

/-- A map character bound to a tile, or else to an object that has no other character. -/
def CharmapEntry.link (e : CharmapEntry) (ts : LinkedTileset) : Reading LinkedTileset :=
  match ts.names.get? e.target with
  | some id => pure { ts with charmap := ts.charmap.put e.key id }
  | none =>
    match ts.objects.get? e.target with
    | none => do
      Report.report ⟨.charmapTarget e.target, e.line, 1⟩
      return ts
    | some o =>
      if o.char.isSome && o.char != some e.key then do
        Report.report ⟨.objectBoundTwice e.target, e.line, 1⟩
        return ts
      else pure { ts with objects := ts.objects.put e.target { o with char := some e.key } }

/-- An object that has a character, with its tiles by their ids. -/
def ObjectDef.stamp (o : ObjectDef) (names : Table String Int) : Reading (Option Stamp) :=
  match o.char with
  | none => pure none
  | some char => do
    let tiles ← o.tiles.mapM fun t =>
      match names.get? t with
      | some id => pure id
      | none => Report.breakOff (.unknownTile t)
    return some { name := o.name, width := o.width, height := o.height, tiles, char }

def readStamps (ts : LinkedTileset) : Reading (Table String Stamp) :=
  ts.objects.values.foldlM (fun stamps o => do
    match ← ObjectDef.stamp o ts.names with
    | some stamp => return stamps.put stamp.char stamp
    | none => return stamps) []

def fullDialect : Dialect :=
  { colors := colorNames ++ greyNames, keepsNames := false }

def plainDialect : Dialect :=
  { colors := colorNames, keepsNames := true }

def read (s : Surroundings) (text : String) : Reading LinkedTileset := do
  let p ← readLines fullDialect s (sourceLines text)
  let ts ← checkCount s p
  let objects ← readObjects p.names p.objects
  let linked : LinkedTileset :=
    { ts with
      names := p.names
      objects := Table.ofEntries (objects.map fun o => (Text.upper o.name, o)) }
  let linked ← p.charmap.foldlM (fun ts e => e.link ts) linked
  let stamps ← readStamps linked
  return { linked with stamps }

/-- The list with its last element that satisfies a condition changed. -/
def changeLast {α : Type} (p : α → Bool) (f : α → α) (l : List α) : List α :=
  match l.reverse.findIdx? p with
  | none => l
  | some i => l.modify (l.length - 1 - i) f

def CharmapEntry.bindListed (e : CharmapEntry) (names : Table String Int)
    (objects : List ObjectDef) : Reading (List ObjectDef) :=
  if names.has e.target then pure objects
  else
    let isTarget := fun o : ObjectDef => Text.upper o.name == e.target
    match objects.reverse.find? isTarget with
    | none => do
      Report.report ⟨.charmapTarget e.target, e.line, 1⟩
      return objects
    | some o =>
      if o.char.isSome && o.char != some e.key then do
        Report.report ⟨.objectBoundTwice e.target, e.line, 1⟩
        return objects
      else pure (changeLast isTarget (fun o => { o with char := some e.key }) objects)

def readListed (s : Surroundings) (text : String) : Reading ListedTileset := do
  let p ← readLines plainDialect s (sourceLines text)
  let ts ← checkCount s p
  let objects ← readObjects p.names p.objects
  let objects ← p.charmap.foldlM (fun objects e => e.bindListed p.names objects) objects
  return { ts with objects }

end EscapeRoom.Tileset
