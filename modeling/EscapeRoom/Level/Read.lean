import EscapeRoom.Level.Issue
import EscapeRoom.Line
import EscapeRoom.Text.Case
import EscapeRoom.Tileset.Read

/-!
# Reading a level file

A header line `LEVEL` is followed by sections, scripts and rooms, each up to a line `END` or `ENDROOM`.
Reading keeps what is known so far, line by line. A level may name a tileset, whose tiles and map
characters it can then use; a level without a section of tiles takes all map characters of its tileset.
-/

namespace EscapeRoom.Level

structure Sources where
  path : String
  isFile : String → Bool
  text : String → Except TextError String

inductive Part where
  | tiles
  | flags
  | vars
  | items
  | messages
  | spawns
  | exits
  | objects
  | map
  deriving Repr, DecidableEq

def levelPart? (head : String) : Option Part :=
  if head = "TILES" then some .tiles
  else if head = "FLAGS" then some .flags
  else if head = "VARS" then some .vars
  else if head = "ITEMS" then some .items
  else if head = "MESSAGES" then some .messages
  else none

def roomPart? (head : String) : Option Part :=
  if head = "SPAWNS" then some .spawns
  else if head = "EXITS" then some .exits
  else if head = "OBJECTS" then some .objects
  else if head = "MAP" then some .map
  else none

structure Progress where
  level : Option Level := none
  headerSeen : Bool := false
  tileNames : Table String Int := []
  charmap : Table String Int := []
  stamps : Table String Stamp := []
  tilesSeen : Bool := false
  room : Option Room := none
  part : Option Part := none
  script : Option (ScriptKind × Script) := none
  deriving Repr, DecidableEq

def reportAt (line : Line) (cause : Cause) (column : Nat := 1) : Compiling Unit :=
  Report.report { cause, line := line.number, column }

/-- Reports an issue at the first place where a token stands in the line. -/
def reportToken (line : Line) (cause : Cause) (token : String) : Compiling Unit :=
  reportAt line cause (Text.columnOf line.raw token)

/-- The tileset in a file. Its issues are reported for that file. -/
def readTileset (s : Sources) (path : String) :
    Compiling (Except HeaderFault LinkedTileset) :=
  match s.text path with
  | .error (.encoding e) => pure (.error (.encoding e))
  | .error (.file .missing) => do
    Report.report { cause := .tilesetMissing path, line := 1, file := some path }
    return .ok { name := "" }
  | .error (.file e) => Report.breakOff (.tilesetFile e)
  | .ok text => do
    let (outcome, issues) := (Tileset.read ⟨path, s.isFile⟩ text).run .collecting
    issues.forM fun i => Report.report
      { cause := .tileset i.cause, line := i.line, column := i.column, file := some path }
    match outcome with
    | .ok tileset => return .ok tileset
    | .error (.issue i) =>
      Report.report
        { cause := .tileset i.cause, line := i.line, column := i.column, file := some path }
      return .ok { name := "" }
    | .error (.broken .idTooLong) => return .error (.tileset .idTooLong)
    | .error (.broken b) => Report.breakOff (.tileset b)

def splitPair (sep : Char) (text : String) : Except HeaderFault (String × String) :=
  match Text.parts sep text with
  | [a, b] => .ok (a, b)
  | parts => .error (if parts.length < 2 then .tooFewParts parts.length else .tooManyParts)

def parseSize (text : String) : Except HeaderFault Int :=
  (Number.parseLiteral .decimal text).mapError .literal

/-- The tileset that a header names, if its file is there. -/
def linkTileset (s : Sources) (line : Line) (tileset : String) (p : Progress) :
    Compiling (Except HeaderFault Progress) := do
  let path := if Path.isAbsolute tileset then tileset
    else Path.join (Path.directory s.path) tileset
  if s.isFile path then
    match ← readTileset s path with
    | .ok ts => return .ok { p with tileNames := ts.names, charmap := ts.charmap, stamps := ts.stamps }
    | .error fault => return .error fault
  else
    reportToken line (.tilesetMissing path) "tset"
    return .ok p

def headerLevel (line : Line) (fields : Fields) (p : Progress) (width height : String)
    (start : String × String) : Except HeaderFault Level := do
  let width ← parseSize width
  let height ← parseSize height
  return { name := fields.getD "name" "UNNAMED", width, height, startRoom := start.1
           startSpawn := start.2, line := line.number, stamps := p.stamps }

def readHeader (s : Sources) (line : Line) (p : Progress) : Compiling Progress := do
  let fields := Fields.scan line.text
  let p := { p with headerSeen := true }
  match fields.get? "w", fields.get? "h", fields.get? "start" with
  | some width, some height, some start =>
    let fail (p : Progress) (fault : HeaderFault) : Compiling Progress := do
      reportToken line (.headerValues fault) "LEVEL"
      return p
    match splitPair ':' start with
    | .error fault => fail p fault
    | .ok start =>
      let linked ← match fields.get? "tset" with
        | none => pure (.ok p)
        | some tileset => linkTileset s line tileset p
      match linked with
      | .error fault => fail p fault
      | .ok p =>
        match headerLevel line fields p width height start with
        | .error fault => fail p fault
        | .ok level => return { p with level := some level }
  | _, _, _ =>
    reportToken line .headerFields "LEVEL"
    return p

def closeScript (p : Progress) (level : Level) (kind : ScriptKind) (script : Script) : Progress :=
  let level := match kind with
    | .cond => { level with conds := level.conds.put script.name script }
    | .act => { level with acts := level.acts.put script.name script }
  { p with level := some level, script := none }

/-- A line `END` ends a script or a section. -/
def readEnd (p : Progress) : Progress :=
  let p := match p.script, p.level with
    | some (kind, script), some level => closeScript p level kind script
    | _, _ => p
  { p with part := none }

def readRoomEnd (line : Line) (p : Progress) : Compiling Progress :=
  match p.level, p.room with
  | some level, some room =>
    pure { p with
      level := some { level with rooms := level.rooms.put room.id room }
      room := none
      part := none }
  | _, _ => do
    reportToken line .endRoomAlone "ENDROOM"
    return p

def readScriptHeader (line : Line) (p : Progress) (level : Level) (kind : ScriptKind)
    (parts : List String) : Compiling Progress :=
  match parts with
  | _ :: name :: _ =>
    let taken := match kind with
      | .cond => level.conds.has name
      | .act => level.acts.has name
    if taken then do
      reportToken line (.scriptTwice kind name) name
      return p
    else pure { p with script := some (kind, { name, lines := [] }) }
  | _ => do
    reportToken line (.scriptUnnamed kind line.text) kind.keyword
    return p

def readRoomHeader (line : Line) (p : Progress) (level : Level) (parts : List String) :
    Compiling Progress :=
  match parts with
  | _ :: id :: _ =>
    if level.rooms.has id then do
      reportToken line (.roomTwice id) id
      return p
    else
      pure { p with
        room := some { id, name := (Fields.scan line.text).getD "name" id, line := line.number }
        part := none }
  | _ => do
    reportToken line (.roomUnnamed line.text) "ROOM"
    return p

def tileId? (token : String) (names : Table String Int) : Option Int :=
  match Number.parseLiteral .marked token with
  | .ok id => some id
  | .error _ => names.get? (Tileset.nameKey token)

def readTile (line : Line) (p : Progress) (level : Level) (parts : List String) :
    Compiling Progress := do
  let key := parts.headD ""
  let p := { p with tilesSeen := true }
  if key.length ≠ 1 then
    reportToken line (.tileKey key) key
    return p
  match parts[1]? with
  | none => Report.breakOff .noTileValue
  | some token =>
    match tileId? token p.tileNames with
    | some id => return { p with level := some { level with tiles := level.tiles.put key id } }
    | none =>
      reportToken line
        (if p.tileNames.isEmpty then .tileValue key token else .tileName key token) token
      return p

def declare (line : Line) (names : List String) (name : String) (twice : Cause) :
    Compiling (List String) :=
  if names.contains name then do
    reportToken line twice name
    return names
  else pure (names ++ [name])

/-- The name and the text of a message line `name = "text"`. -/
def messageParts? (text : String) : Option (String × String) :=
  let cs := text.toList
  match cs.takeWhile Text.isWordChar, Text.trimStart (cs.dropWhile Text.isWordChar) with
  | [], _ => none
  | name, '=' :: rest =>
    match Text.trimStart rest with
    | '"' :: quoted =>
      if quoted.getLast? = some '"' then
        some (String.ofList name, String.ofList quoted.dropLast)
      else none
    | _ => none
  | _, _ => none

def readMessage (line : Line) (p : Progress) (level : Level) (head : String) :
    Compiling Progress :=
  match messageParts? line.text with
  | none => do
    reportToken line (.messageShape line.text) head
    return p
  | some (name, text) =>
    if level.messages.has name then do
      reportToken line (.messageTwice name) name
      return p
    else
      pure { p with level := some { level with messages := level.messages.put name text } }

def parsePosition? (text : String) : Option (Int × Int) :=
  match Text.parts ',' text with
  | [x, y] =>
    match Number.parseLiteral .decimal x, Number.parseLiteral .decimal y with
    | .ok x, .ok y => some (x, y)
    | _, _ => none
  | _ => none

def readSpawn (line : Line) (room : Room) (parts : List String) : Compiling Room :=
  match parts with
  | id :: position :: _ =>
    if room.spawns.has id then do
      reportToken line (.spawnTwice id) id
      return room
    else match parsePosition? position with
      | some (x, y) => pure { room with spawns := room.spawns.put id ⟨x, y, line.number⟩ }
      | none => do
        reportAt line (.spawnPosition id position)
        return room
  | _ => do
    reportToken line (.spawnNoPosition line.text) "SPAWNS"
    return room

def readExit (line : Line) (room : Room) (parts : List String) : Compiling Room :=
  match parts with
  | edge :: destination :: _ =>
    match Text.parts ':' destination with
    | [destRoom, destSpawn] =>
      pure { room with exits := room.exits ++ [⟨edge, destRoom, destSpawn, line.number⟩] }
    | _ => do
      reportAt line (.exitDestination destination)
      return room
  | _ => do
    reportToken line (.exitNoDestination line.text) "EXITS"
    return room

def readVerbs (line : Line) (verbs : String) : Compiling Nat :=
  (Text.parts '|' verbs).foldlM (fun mask part => do
    let verb := Text.upper (Text.trim part)
    match verbBit? verb with
    | some bit => return mask ||| 1 <<< bit
    | none =>
      reportToken line (.unknownVerb verb line.text) verb
      return mask) 0

/-- The fields of an object line that are not properties of the object. -/
def reservedFields : List String :=
  ["type", "verbs", "cond", "look", "take", "use", "talk", "operate", "ok", "bad", "fuse", "badge",
   "reject"]

/-- An object with its scripts. Some kinds of objects have names of their own for the two alternative
scripts and for the script of a rejected use. -/
def objectOf (name : String) (x y : Int) (typeName : String) (verbs line : Nat) (fields : Fields) :
    LevelObject :=
  { name, x, y, typeName, verbs, line
    props := fields.filter fun e => !reservedFields.contains e.1
    cond := fields.getD "cond" "ALWAYS"
    look := fields.getD "look" ""
    take := fields.getD "take" ""
    use := fields.getD "reject" (fields.getD "use" "")
    talk := fields.getD "talk" ""
    operate := fields.getD "operate" ""
    alt0 := fields.getD "fuse" (fields.getD "ok" "")
    alt1 := fields.getD "badge" (fields.getD "bad" "") }

def readObjectAt (line : Line) (room : Room) (name position : String) : Compiling Room :=
  match Text.parts ',' position with
  | [x, y] => do
    let fields := Fields.scan line.text
    let typeName := fields.getD "type" ""
    let verbNames := fields.getD "verbs" ""
    if typeName.isEmpty || verbNames.isEmpty then
      reportToken line (.objectFields line.text) "type"
      return room
    let verbs ← readVerbs line verbNames
    match Number.parseLiteral .decimal x, Number.parseLiteral .decimal y with
    | .ok x, .ok y =>
      let object := objectOf name x y typeName verbs line.number fields
      return { room with objects := room.objects ++ [object] }
    | _, _ =>
      reportAt line (.objectCoordinates name x y)
      return room
  | _ => do
    reportAt line (.objectPosition line.text)
    return room

/-- An object line: a name, `at`, a position, and fields. -/
def readObject (line : Line) (room : Room) (parts : List String) : Compiling Room :=
  match parts with
  | name :: "at" :: position :: _ :: _ =>
    if room.objects.any (·.name == name) then do
      reportToken line (.objectTwice name) name
      return room
    else readObjectAt line room name position
  | _ => do
    reportToken line (.objectShape line.text) (parts.headD "")
    return room

def inRoom (p : Progress) (read : Room → Compiling Room) : Compiling Progress :=
  match p.room with
  | some room => do return { p with room := some (← read room) }
  | none => pure p

def readEntry (line : Line) (p : Progress) (level : Level) (parts : List String) :
    Compiling Progress :=
  let head := parts.headD ""
  match p.part with
  | some .tiles => readTile line p level parts
  | some .flags => do
    let flags ← declare line level.flags head (.flagTwice head)
    return { p with level := some { level with flags } }
  | some .vars => do
    let vars ← declare line level.vars head (.varTwice head)
    return { p with level := some { level with vars } }
  | some .items => do
    let items ← declare line level.items head (.itemTwice head)
    return { p with level := some { level with items } }
  | some .messages => readMessage line p level head
  | some .spawns => inRoom p fun room => readSpawn line room parts
  | some .exits => inRoom p fun room => readExit line room parts
  | some .objects => inRoom p fun room => readObject line room parts
  | some .map | none => do
    reportAt line (.unexpectedLine line.text)
    return p

/-- A line that begins something, or else belongs to a section. -/
def readHead (line : Line) (p : Progress) (level : Level) (parts : List String) :
    Compiling Progress :=
  let head := parts.headD ""
  match levelPart? head, roomPart? head with
  | some part, _ => pure { p with part := some part }
  | none, some part =>
    if p.room.isSome then pure { p with part := some part }
    else do
      reportToken line (.outsideRoom head) head
      return p
  | none, none =>
    if head = "COND" then readScriptHeader line p level .cond parts
    else if head = "ACT" then readScriptHeader line p level .act parts
    else if head = "ROOM" then readRoomHeader line p level parts
    else readEntry line p level parts

def readMapRow (line : Line) (p : Progress) : Compiling Progress :=
  match p.room with
  | some room => pure { p with room := some { room with map := room.map ++ [(line.number, line.text)] } }
  | none => do
    reportToken line .mapOutsideRoom "MAP"
    return p

def readLine (s : Sources) (p : Progress) (line : Line) : Compiling Progress :=
  if line.text = "END" then pure (readEnd p)
  else if line.text = "ENDROOM" then readRoomEnd line p
  else match p.script with
    | some (kind, script) =>
      pure { p with
        script := some (kind, { script with lines := script.lines ++ [(line.number, line.text)] }) }
    | none =>
      if p.part = some .map then readMapRow line p
      else
        let parts := Text.words line.text
        let head := parts.headD ""
        if head = "LEVEL" then readHeader s line p
        else if !p.headerSeen then do
          reportToken line (.levelExpected line.text) head
          return p
        else match p.level with
          | none => pure p
          | some level => readHead line p level parts

/-- The condition that holds always, if the level does not define it otherwise. -/
def addAlways (level : Level) : Level :=
  if level.conds.has "ALWAYS" then level
  else { level with
    conds := level.conds.put "ALWAYS" { name := "ALWAYS", lines := [(level.line, "TRUE")] } }

/-- What stands in for a level that is missing, so that the rest can still be looked at. -/
def missingLevel : Level :=
  { name := "INVALID_LEVEL", width := 1, height := 1, startRoom := "R0", startSpawn := "S0", line := 1 }

def finish (p : Progress) : Compiling Level :=
  match p.level with
  | none => do
    Report.report { cause := .noLevel, line := 1 }
    return addAlways missingLevel
  | some level =>
    if p.tilesSeen then pure (addAlways level)
    else if p.charmap.isEmpty then do
      Report.report { cause := .noTiles, line := level.line }
      return addAlways level
    else pure (addAlways { level with tiles := p.charmap })

def read (s : Sources) (text : String) : Compiling Level := do
  finish (← (sourceLines text).foldlM (readLine s) {})

def unreadableCause (e : TextError) (path : String) : Cause :=
  match e with
  | .file .missing => .fileMissing
  | .file e => .unreadable e path
  | .encoding e => .encoding e

/-- The level in a file, and none if the file cannot be read. -/
def load (s : Sources) : Compiling (Option Level) :=
  match s.text s.path with
  | .error e => do
    Report.report { cause := unreadableCause e s.path, line := 1 }
    return none
  | .ok text => some <$> read s text

end EscapeRoom.Level
