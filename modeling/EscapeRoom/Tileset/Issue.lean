import EscapeRoom.Report
import EscapeRoom.Tileset.Values

/-!
# What can be wrong with a tileset file

An issue has a cause and a place in the file. A few faults of a line leave nothing to go on with and
break the reading off.
-/

namespace EscapeRoom.Tileset

inductive SharedColor where
  | background
  | multicolor1
  | multicolor2
  deriving Repr, DecidableEq

def SharedColor.key : SharedColor → String
  | .background => "bgColor"
  | .multicolor1 => "mc1Color"
  | .multicolor2 => "mc2Color"

inductive Cause where
  | tileSizeMissing
  | tileSizeShape
  | tileSizeDigits (size : String)
  | tileSizeUnsupported
  | badCount (text : String)
  | colorMissing (color : SharedColor)
  | badSharedColor (color : SharedColor) (text : String)
  | sharedColorRange (color : SharedColor)
  | charsetNotFound (path : String)
  | headerNotFirst
  | flagBitsSection
  | badTileId (text : String)
  | tileIdMissing (line : String)
  | tileIdRange
  | charmapNoName (line : String)
  | charmapKey (key : String)
  | charmapDuplicate (key : String)
  | unexpectedLine (line : String)
  | charsMissing (line : String)
  | badList (error : ValueError)
  | charRange (line : String)
  | badColor (text : String)
  | colorsMissing (line : String)
  | colorRange (line : String)
  | unknownFlag (name line : String)
  | duplicateName (name : String)
  | duplicateId (id : Int)
  | noHeader
  | noTiles
  | tooManyDeclared (defined : Nat) (declared : Int)
  | tooManyTiles
  | objectChar (line : String)
  | objectFields (line : String)
  | objectSizeShape (size : String)
  | objectSizeDigits (size : String)
  | objectTileCount (count : Nat) (width height : Int)
  | objectTile (name : String)
  | charmapTarget (name : String)
  | objectBoundTwice (name : String)
  deriving Repr, DecidableEq

def Cause.message : Cause → String
  | .tileSizeMissing => "TSET requires tileSize=2x2"
  | .tileSizeShape => "tileSize must look like 2x2"
  | .tileSizeDigits size => "tileSize must contain integers: " ++ size
  | .tileSizeUnsupported => "This tool currently expects tileSize=2x2"
  | .badCount text => "Invalid count value: " ++ text
  | .colorMissing color => "TSET requires " ++ color.key ++ "="
  | .badSharedColor color text => "Invalid " ++ color.key ++ " value: " ++ text
  | .sharedColorRange color => color.key ++ " must be 0..15"
  | .charsetNotFound path => "charset file not found: " ++ path
  | .headerNotFirst => "File must start with TSET ..."
  | .flagBitsSection => "FLAGBITS section is not allowed in .tset files"
  | .badTileId text => "Invalid TILE id: " ++ text
  | .tileIdMissing line => "TILE missing id=: " ++ line
  | .tileIdRange => "TILE id must be 0..255"
  | .charmapNoName line => "CHARMAP line missing tile name: " ++ line
  | .charmapKey key => "CHARMAP key must be a single char: " ++ key
  | .charmapDuplicate key => "Duplicate CHARMAP key: " ++ key
  | .unexpectedLine line => "Unexpected line: " ++ line
  | .charsMissing line => "TILE missing chars=: " ++ line
  | .badList error => error.message
  | .charRange line => "Char code out of range 0..255 in: " ++ line
  | .badColor text => "Invalid color value: " ++ text
  | .colorsMissing line => "TILE must have color= or colors=: " ++ line
  | .colorRange line => "Color out of range 0..15 in: " ++ line
  | .unknownFlag name line => "Unknown flag '" ++ name ++ "' in: " ++ line
  | .duplicateName name => "Duplicate TILE name: " ++ name
  | .duplicateId id => "Duplicate TILE id=" ++ toString id
  | .noHeader => "No TSET header found"
  | .noTiles => "No TILE definitions found"
  | .tooManyDeclared defined declared =>
    "Defined " ++ toString defined ++ " tiles but TSET count=" ++ toString declared
  | .tooManyTiles => "Too many tiles: max 255 (count stored as u8)"
  | .objectChar line => "OBJECTS entry must not include char=: " ++ line
  | .objectFields line => "OBJECTS entry requires size= tiles=: " ++ line
  | .objectSizeShape size => "OBJECTS size must look like WxH: " ++ size
  | .objectSizeDigits size => "OBJECTS size must be integers: " ++ size
  | .objectTileCount count width height =>
    "OBJECTS tiles count " ++ toString count ++ " does not match size " ++ toString width ++ "x" ++
      toString height
  | .objectTile name => "OBJECTS unknown tile name: " ++ name
  | .charmapTarget name => "CHARMAP unknown tile/object name: " ++ name
  | .objectBoundTwice name => "OBJECT '" ++ name ++ "' bound to multiple chars"

structure Issue where
  cause : Cause
  line : Nat
  column : Nat
  deriving Repr, DecidableEq

def Issue.message (i : Issue) : String :=
  i.cause.message

inductive Breakdown where
  | noTileName
  | noTileYet
  | unknownFlag (name : String)
  | unknownTile (name : String)
  | wideLetter (length : Nat)
  /-- A tile id or a number of tiles with too many digits to be written. -/
  | idTooLong
  deriving Repr, DecidableEq

def Breakdown.message : Breakdown → String
  | .noTileName => "list index out of range"
  | .noTileYet => "cannot access local variable 'tid' where it is not associated with a value"
  | .unknownFlag name => Text.quoted name
  | .unknownTile name => Text.quoted name
  | .wideLetter length => (ValueError.wideLetter length).message
  | .idTooLong =>
    "Exceeds the limit (" ++ toString Number.maxDigits ++
      " digits) for integer string conversion; use sys.set_int_max_str_digits() to increase the limit"

abbrev Reading := Report Issue Breakdown

/-- A value, or a report of what is wrong with it and a value to go on with. -/
def valueOr {α : Type} (parsed : Except ValueError α) (instead : α)
    (issue : ValueError → Issue) : Reading α :=
  match parsed with
  | .ok a => pure a
  | .error (.wideLetter length) => Report.breakOff (.wideLetter length)
  | .error e => do
    Report.report (issue e)
    return instead

end EscapeRoom.Tileset
