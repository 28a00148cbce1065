import EscapeRoom.Diagnostics
import EscapeRoom.Files.Tree
import EscapeRoom.Level.Basic
import EscapeRoom.Tileset.Issue

/-!
# What can be wrong with a level

An issue has a cause and a place. The place may be in the tileset that the level names; without a file
it is in the level itself.
-/

namespace EscapeRoom.Level

inductive IdKind where
  | flag
  | var
  | item
  | msg
  | room
  deriving Repr, DecidableEq

def IdKind.word : IdKind → String
  | .flag => "FLAG"
  | .var => "VAR"
  | .item => "ITEM"
  | .msg => "MSG"
  | .room => "ROOM"

def unknownIdText (kind name : String) : String :=
  "Unknown " ++ kind ++ " id: " ++ name

inductive Operand where
  | flag
  | item
  | message
  | varAndValue
  | sound
  | roomAndSpawn
  deriving Repr, DecidableEq

def Operand.text : Operand → String
  | .flag => "a flag name"
  | .item => "an item name"
  | .message => "a message name"
  | .varAndValue => "a var name and value"
  | .sound => "a sound id"
  | .roomAndSpawn => "room and spawn"

inductive HeaderFault where
  | tooFewParts (found : Nat)
  | tooManyParts
  | literal (error : Number.LiteralError)
  | encoding (error : Text.Utf8.Error)
  | tileset (fault : Tileset.Breakdown)
  deriving Repr, DecidableEq

def HeaderFault.message : HeaderFault → String
  | .tooFewParts found =>
    "not enough values to unpack (expected 2, got " ++ toString found ++ ")"
  | .tooManyParts => "too many values to unpack (expected 2)"
  | .literal e => e.message
  | .encoding e => e.message
  | .tileset b => b.message

inductive Cause where
  | tileset (cause : Tileset.Cause)
  | fileMissing
  | encoding (error : Text.Utf8.Error)
  | unreadable (error : FileError) (path : String)
  | endRoomAlone
  | mapOutsideRoom
  | headerFields
  | tilesetMissing (path : String)
  | headerValues (fault : HeaderFault)
  | levelExpected (line : String)
  | scriptUnnamed (kind : ScriptKind) (line : String)
  | scriptTwice (kind : ScriptKind) (name : String)
  | roomUnnamed (line : String)
  | roomTwice (id : String)
  | outsideRoom (head : String)
  | tileKey (key : String)
  | tileName (key token : String)
  | tileValue (key token : String)
  | flagTwice (name : String)
  | varTwice (name : String)
  | itemTwice (name : String)
  | messageShape (line : String)
  | messageTwice (name : String)
  | spawnNoPosition (line : String)
  | spawnTwice (id : String)
  | spawnPosition (id text : String)
  | exitNoDestination (line : String)
  | exitDestination (text : String)
  | objectShape (line : String)
  | objectTwice (name : String)
  | objectPosition (line : String)
  | objectFields (line : String)
  | unknownVerb (verb line : String)
  | objectCoordinates (name x y : String)
  | unexpectedLine (line : String)
  | noLevel
  | noTiles
  | unknownId (kind : IdKind) (name : String)
  | unknownOp (kind : ScriptKind) (op : String)
  | operandMissing (kind : ScriptKind) (op : String) (operand : Operand)
  | badValue (kind : ScriptKind) (op text : String)
  | badSound (op text : String)
  | transitionSpawn (spawn room : String)
  | unknownScript (kind : ScriptKind) (name : String)
  | mapHeight (room : String) (found : Nat) (expected : Int)
  | mapWidth (room : String) (row found : Nat) (expected : Int)
  | stampIsTile (room char : String)
  | stampOutside (room char : String) (x y : Nat)
  | stampBroken (room char : String) (width height : Int) (x y : Nat)
  | stampOverlap (room char : String) (x y : Nat)
  | mapChar (room char : String)
  | mapUnresolved (room : String) (x y : Nat)
  | exitEdge (room edge : String)
  | exitRoom (room dest : String)
  | exitSpawn (room dest spawn : String)
  | objectType (room typeName : String)
  | objectParameters (room object : String)
  | keypadRange (room : String)
  | keypadCode (room text : String)
  | breakerRange (room : String)
  | breakerValue (room text : String)
  | startSpawn (room spawn : String)
  deriving Repr, DecidableEq

def Cause.message : Cause → String
  | .tileset cause => cause.message
  | .fileMissing => "Input file not found"
  | .encoding e => "File encoding error: " ++ e.message
  | .unreadable e path => "Error reading file: " ++ e.message path
  | .endRoomAlone => "ENDROOM without ROOM"
  | .mapOutsideRoom => "MAP outside ROOM"
  | .headerFields => "LEVEL requires w=, h=, start=R?:S?"
  | .tilesetMissing path => "TSET file not found: " ++ path
  | .headerValues fault => "Invalid LEVEL values: " ++ fault.message
  | .levelExpected line => "Expected LEVEL block, found: " ++ line
  | .scriptUnnamed kind line => kind.keyword ++ " missing name: " ++ line
  | .scriptTwice kind name => "Duplicate " ++ kind.keyword ++ ": " ++ name
  | .roomUnnamed line => "ROOM missing id: " ++ line
  | .roomTwice id => "Duplicate ROOM: " ++ id
  | .outsideRoom head => head ++ " outside ROOM"
  | .tileKey key => "TILES key must be a single char: " ++ key
  | .tileName key token => "TILES unknown tile name for '" ++ key ++ "': " ++ token
  | .tileValue key token =>
    "TILES invalid value for '" ++ key ++ "': " ++ token ++ " (add LEVEL tset=... to use names)"
  | .flagTwice name => "Duplicate FLAG: " ++ name
  | .varTwice name => "Duplicate VAR: " ++ name
  | .itemTwice name => "Duplicate ITEM: " ++ name
  | .messageShape line => "Bad message line: " ++ line
  | .messageTwice name => "Duplicate MESSAGE: " ++ name
  | .spawnNoPosition line => "SPAWNS line missing position: " ++ line
  | .spawnTwice id => "Duplicate SPAWN: " ++ id
  | .spawnPosition id text => "SPAWNS invalid position for '" ++ id ++ "': " ++ text
  | .exitNoDestination line => "EXITS line missing destination: " ++ line
  | .exitDestination text => "EXITS invalid destination format: " ++ text
  | .objectShape line => "Bad OBJECT line: " ++ line
  | .objectTwice name => "Duplicate OBJECT: " ++ name
  | .objectPosition line => "Bad OBJECT position in line: " ++ line
  | .objectFields line => "Object missing type/verbs: " ++ line
  | .unknownVerb verb line => "Unknown verb " ++ verb ++ " in " ++ line
  | .objectCoordinates name x y =>
    "Invalid OBJECT coordinates for '" ++ name ++ "': " ++ x ++ "," ++ y
  | .unexpectedLine line => "Unexpected line: " ++ line
  | .noLevel => "No LEVEL block found"
  | .noTiles => "No TILES section and no CHARMAP found in tset"
  | .unknownId kind name => unknownIdText kind.word name
  | .unknownOp kind op => "Unknown " ++ kind.keyword ++ " op: " ++ op
  | .operandMissing kind op operand =>
    kind.keyword ++ " op " ++ op ++ " requires " ++ operand.text
  | .badValue kind op text => kind.keyword ++ " op " ++ op ++ " has invalid value: " ++ text
  | .badSound op text => "ACT op " ++ op ++ " has invalid sound id: " ++ text
  | .transitionSpawn spawn room =>
    "Unknown spawn " ++ spawn ++ " in room " ++ room ++ " for TRANSITION"
  | .unknownScript kind name => "Unknown " ++ kind.keyword ++ " script: " ++ name
  | .mapHeight room found expected =>
    room ++ ": MAP has " ++ toString found ++ " lines, expected " ++ toString expected
  | .mapWidth room row found expected =>
    room ++ ": MAP line " ++ toString row ++ " length " ++ toString found ++ ", expected " ++
      toString expected
  | .stampIsTile room char =>
    room ++ ": MAP char '" ++ char ++ "' is both a tile and an object stamp"
  | .stampOutside room char x y =>
    room ++ ": OBJECT stamp '" ++ char ++ "' out of bounds at " ++ toString x ++ "," ++ toString y
  | .stampBroken room char width height x y =>
    room ++ ": OBJECT stamp '" ++ char ++ "' is not a solid " ++ toString width ++ "x" ++
      toString height ++ " block at " ++ toString x ++ "," ++ toString y
  | .stampOverlap room char x y =>
    room ++ ": OBJECT stamp '" ++ char ++ "' overlaps another tile at " ++ toString x ++ "," ++
      toString y
  | .mapChar room char => room ++ ": MAP uses char '" ++ char ++ "' with no TILES mapping"
  | .mapUnresolved room x y =>
    room ++ ": MAP unresolved tile at " ++ toString x ++ "," ++ toString y
  | .exitEdge room edge => room ++ ": bad exit edge " ++ edge
  | .exitRoom room dest => room ++ ": exit dest room unknown " ++ dest
  | .exitSpawn room dest spawn => room ++ ": exit dest spawn unknown " ++ dest ++ ":" ++ spawn
  | .objectType room typeName => room ++ ": unknown object type " ++ typeName
  | .objectParameters room object => room ++ ": invalid p0/p1 values for object " ++ object
  | .keypadRange room => room ++ ": keypad code out of range 0..999"
  | .keypadCode room text => room ++ ": invalid keypad code: " ++ text
  | .breakerRange room => room ++ ": breaker expect must be 0..7"
  | .breakerValue room text => room ++ ": invalid breaker expect value: " ++ text
  | .startSpawn room spawn => "Start spawn unknown: " ++ room ++ ":" ++ spawn

structure Issue where
  cause : Cause
  line : Nat
  column : Nat := 1
  file : Option String := none
  deriving Repr, DecidableEq

def Issue.diagnostic (i : Issue) (defaultFile : Option String) : Diagnostic :=
  { file := Diagnostics.fileFor defaultFile i.file
    line := i.line
    column := i.column
    message := i.cause.message }

inductive Breakdown where
  | noTileValue
  | tileset (fault : Tileset.Breakdown)
  | tilesetFile (error : FileError)
  | belowMap
  | offsetTooLarge
  deriving Repr, DecidableEq

def Breakdown.message : Breakdown → String
  | .noTileValue => "a map character without its tile"
  | .tileset fault => fault.message
  | .tilesetFile e => e.text
  | .belowMap => "a stamp reaches below the map"
  | .offsetTooLarge => "the level is too large: an offset does not fit into a word"

abbrev Compiling := Report Issue Breakdown

end EscapeRoom.Level
