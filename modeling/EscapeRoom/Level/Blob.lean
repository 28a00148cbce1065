import EscapeRoom.Level.RoomMap
import EscapeRoom.Level.Script

/-!
# Level blobs

A compiled level is one sequence of bytes: a header, a directory of rooms, the data of each room, the
code of the conditions and of the actions, and the messages. Parts refer to each other by offsets from
the beginning of the blob, script code by offsets from the beginning of its stream.
-/

namespace EscapeRoom.Level

def headerSize : Nat := 22

def directoryEntrySize : Nat := 8

def objectRecordSize : Nat := 22

/-- Where the scripts of a kind begin in their stream, and the stream. -/
structure Stream where
  offsets : Table String Nat := []
  code : Bytes := []
  deriving Repr, DecidableEq

def Stream.add (s : Stream) (name : String) (code : Bytes) : Stream :=
  { offsets := s.offsets.put name s.code.length, code := s.code ++ code }

/-- The numbers of all names of a level, in the order of the file. -/
def ids (level : Level) : Ids :=
  { flags := Ids.number level.flags
    vars := Ids.number level.vars
    items := Ids.number level.items
    messages := Ids.number level.messages.keys
    rooms := Ids.number level.rooms.keys
    spawns := level.rooms.map fun (id, room) => (id, Ids.number room.spawns.keys) }

def conditionStream (ids : Ids) (level : Level) : Compiling Stream :=
  level.conds.foldlM (fun s (name, script) => do
    return s.add name (← Script.conditionCode ids script.lines)) {}

/-- The action that does nothing, from which the stream of actions begins. -/
def idleStream : Stream :=
  Stream.add {} "NOOP" Instruction.stop.bytes

def actionStream (ids : Ids) (level : Level) : Compiling Stream :=
  level.acts.foldlM (fun s (name, script) => do
    return s.add name (← Script.actionCode ids script.lines)) idleStream

/-- Where a script begins. No name at all stands for the beginning of the stream. -/
def scriptOffset (s : Stream) (kind : ScriptKind) (name : String) (line : Nat) : Compiling Nat :=
  if name.isEmpty then pure 0
  else match Table.get? s.offsets name with
    | some offset => pure offset
    | none => do
      Report.report { cause := .unknownScript kind name, line }
      return 0

def spawnBytes (room : Room) : Bytes :=
  byteOf room.spawns.length :: room.spawns.values.flatMap fun s => [byteOf s.x, byteOf s.y]

/-- The record of an exit, if its edge and its destination are known. -/
def exitRecord (ids : Ids) (room : Room) (e : Exit) : Compiling (Option Bytes) :=
  let fail (cause : Cause) : Compiling (Option Bytes) := do
    Report.report { cause, line := e.line }
    return none
  match exitEdges.get? e.edge with
  | none => fail (.exitEdge room.id e.edge)
  | some edge =>
    match ids.rooms.get? e.room with
    | none => fail (.exitRoom room.id e.room)
    | some destination =>
      match ids.spawn? e.room e.spawn with
      | none => fail (.exitSpawn room.id e.room e.spawn)
      | some spawn => pure (some [byteOf edge, byteOf destination, byteOf spawn])

def exitBytes (ids : Ids) (room : Room) : Compiling Bytes := do
  let records ← room.exits.mapM (exitRecord ids room)
  return byteOf room.exits.length :: (records.filterMap id).flatten

structure ObjectRecord where
  object : LevelObject
  typeCode : Nat
  p0 : UInt8
  p1 : UInt8
  cond : Nat
  look : Nat
  take : Nat
  use : Nat
  talk : Nat
  operate : Nat
  alt0 : Nat
  alt1 : Nat
  deriving Repr, DecidableEq

def ObjectRecord.bytes (r : ObjectRecord) : Bytes :=
  [byteOf r.object.x, byteOf r.object.y, byteOf r.typeCode, byteOf r.object.verbs, r.p0, r.p1] ++
    [r.cond, r.look, r.take, r.use, r.talk, r.operate, r.alt0, r.alt1].flatMap fun (n : Nat) => wordOf n

/-- The two parameters of an object as its properties `p0` and `p1` give them. -/
def plainParameters (room : Room) (o : LevelObject) : Compiling (UInt8 × UInt8) :=
  match Number.parseLiteral .marked (o.props.getD "p0" "0"),
      Number.parseLiteral .marked (o.props.getD "p1" "0") with
  | .ok p0, .ok p1 => pure (byteOf p0, byteOf p1)
  | _, _ => do
    Report.report { cause := .objectParameters room.id o.name, line := o.line }
    return (0, 0)

/-- A keypad code of up to three digits: its hundreds and the rest. -/
def keypadParameters (room : Room) (o : LevelObject) (code : String) (p : UInt8 × UInt8) :
    Compiling (UInt8 × UInt8) :=
  match Number.parseLiteral .decimal code with
  | .error _ => do
    Report.report { cause := .keypadCode room.id code, line := o.line }
    return p
  | .ok n =>
    if 0 ≤ n ∧ n ≤ 999 then pure (byteOf (n / 100), byteOf (n % 100))
    else do
      Report.report { cause := .keypadRange room.id, line := o.line }
      return p

def breakerExpectation (room : Room) (o : LevelObject) (text : String) (p1 : UInt8) :
    Compiling UInt8 :=
  match Number.parseLiteral .marked text with
  | .error _ => do
    Report.report { cause := .breakerValue room.id text, line := o.line }
    return p1
  | .ok n =>
    if 0 ≤ n ∧ n ≤ 7 then pure (byteOf n)
    else do
      Report.report { cause := .breakerRange room.id, line := o.line }
      return p1

def parameters (ids : Ids) (room : Room) (o : LevelObject) : Compiling (UInt8 × UInt8) := do
  let (p0, p1) ← plainParameters room o
  if o.typeName = "PICKUP" then
    match o.props.get? "item" with
    | some item => return (byteOf (← resolveId ids.items .item item o.line), p1)
    | none => return (p0, p1)
  else if o.typeName = "LOCKER_KEYPAD" then
    match o.props.get? "code" with
    | some code => keypadParameters room o code (p0, p1)
    | none => return (p0, p1)
  else if o.typeName = "BREAKER_PANEL" then
    let p0 ← match o.props.get? "var" with
      | some var => byteOf <$> Int.ofNat <$> resolveId ids.vars .var var o.line
      | none => pure p0
    let p1 ← match o.props.get? "expect" with
      | some text => breakerExpectation room o text p1
      | none => pure p1
    return (p0, p1)
  else return (p0, p1)

def objectRecord (ids : Ids) (conds acts : Stream) (room : Room) (o : LevelObject) :
    Compiling (Option ObjectRecord) :=
  match objectTypes.get? o.typeName with
  | none => do
    Report.report { cause := .objectType room.id o.typeName, line := o.line }
    return none
  | some typeCode => do
    let (p0, p1) ← parameters ids room o
    let cond ← scriptOffset conds .cond o.cond o.line
    let act (name : String) := scriptOffset acts .act name o.line
    let look ← act o.look
    let take ← act o.take
    let use ← act o.use
    let talk ← act o.talk
    let operate ← act o.operate
    let alt0 ← act o.alt0
    let alt1 ← act o.alt1
    return some { object := o, typeCode, p0, p1, cond, look, take, use, talk, operate, alt0, alt1 }

structure RoomLayout where
  room : Room
  map : Nat
  spawns : Nat
  exits : Nat
  objects : Nat
  records : List ObjectRecord
  deriving Repr, DecidableEq

def RoomLayout.entry (l : RoomLayout) : List Nat :=
  [l.map, l.spawns, l.exits, l.objects]

def roomData (ids : Ids) (conds acts : Stream) (level : Level) (room : Room) (offset : Nat) :
    Compiling (RoomLayout × Bytes) := do
  let map ← mapBytes level room
  let spawns := spawnBytes room
  let exits ← exitBytes ids room
  let records ← room.objects.mapM (objectRecord ids conds acts room)
  let records := records.filterMap id
  let objects := byteOf room.objects.length :: records.flatMap ObjectRecord.bytes
  let layout :=
    { room
      map := offset
      spawns := offset + map.length
      exits := offset + map.length + spawns.length
      objects := offset + map.length + spawns.length + exits.length
      records }
  return (layout, map ++ spawns ++ exits ++ objects)

def roomsData (ids : Ids) (conds acts : Stream) (level : Level) :
    List Room → Nat → Compiling (List RoomLayout × Bytes)
  | [], _ => pure ([], [])
  | room :: rest, offset => do
    let (layout, bytes) ← roomData ids conds acts level room offset
    let (layouts, more) ← roomsData ids conds acts level rest (offset + bytes.length)
    return (layout :: layouts, bytes ++ more)

/-- A text as the runtime stores it: a question mark for what is not ASCII, and a zero at the end. -/
def messageBytes (text : String) : Bytes :=
  text.toList.map (fun c => if c.toNat < 128 then UInt8.ofNat c.toNat else 63) ++ [0]

def textOffsets : List Bytes → Nat → List Nat
  | [], _ => []
  | text :: rest, offset => offset :: textOffsets rest (offset + text.length)

structure Layout where
  ids : Ids
  directory : Nat
  conds : Stream
  condStream : Nat
  acts : Stream
  actStream : Nat
  messageTable : Nat
  messages : List Nat
  rooms : List RoomLayout
  deriving Repr, DecidableEq

structure Compiled where
  level : Level
  layout : Layout
  blob : Bytes
  deriving Repr, DecidableEq

def startIds (ids : Ids) (level : Level) : Compiling (Nat × Nat) := do
  let room ← resolveId ids.rooms .room level.startRoom level.line
  match ids.spawn? level.startRoom level.startSpawn with
  | some spawn => return (room, spawn)
  | none =>
    Report.report { cause := .startSpawn level.startRoom level.startSpawn, line := level.line }
    return (room, 0)

def headerBytes (level : Level) (layout : Layout) (start : Nat × Nat) : Bytes :=
  Bytes.ofAscii "LVL1" ++
    [1, byteOf level.rooms.length, byteOf level.width, byteOf level.height,
      byteOf level.flags.length, byteOf level.vars.length, byteOf level.items.length,
      byteOf level.messages.length, byteOf start.1, byteOf start.2] ++
    wordOf layout.directory ++ wordOf layout.condStream ++ wordOf layout.actStream ++
    wordOf layout.messageTable

def exactWords (words : List Nat) : Compiling Bytes :=
  if words.all (· < 65536) then pure (words.flatMap fun (n : Nat) => wordOf n)
  else Report.breakOff .offsetTooLarge

/-- The blob of a level. Issues are reported and stood in for, so that all of them are found. -/
def compile (level : Level) : Compiling Compiled := do
  let ids := ids level
  let conds ← conditionStream ids level
  let acts ← actionStream ids level
  let roomsStart := headerSize + level.rooms.length * directoryEntrySize
  let (rooms, roomBytes) ← roomsData ids conds acts level level.rooms.values roomsStart
  let condStream := roomsStart + roomBytes.length
  let actStream := condStream + conds.code.length
  let messageTable := actStream + acts.code.length
  let texts := level.messages.values.map messageBytes
  let messages := textOffsets texts (messageTable + 1 + 2 * texts.length)
  let layout : Layout :=
    { ids, directory := headerSize, conds, condStream, acts, actStream, messageTable, messages
      rooms }
  let messageWords ← exactWords messages
  let directory ← exactWords (rooms.flatMap RoomLayout.entry)
  let start ← startIds ids level
  return {
    level
    layout
    blob := headerBytes level layout start ++ directory ++ roomBytes ++ conds.code ++ acts.code ++
      byteOf texts.length :: messageWords ++ texts.flatten }

end EscapeRoom.Level
