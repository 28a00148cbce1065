import EscapeRoom.Json.Value
import EscapeRoom.Text.Identifier
import EscapeRoom.Tileset.Blob

/-!
# Texts about a tileset

With the blob go a header of tile ids for the game's sources, the declarations of the blob, a listing of
the decoded tiles and a summary for inspection.
-/

namespace EscapeRoom.Tileset

def tileConstant (t : Tile) : String :=
  "TILE_" ++ Text.upper (Text.identifier t.name)

def idsHeader (ts : Tileset) : String :=
  "// Auto-generated by tilesetc.py\n#pragma once\n#include <stdint.h>\n\n/* Tile IDs */\n" ++
    String.join (ts.sortedTiles.map fun t =>
      "#define " ++ tileConstant t ++ " " ++ Number.decimal t.id ++ "\n") ++ "\n"

def declaration (symbol : String) : String :=
  "#pragma once\nextern unsigned char " ++ symbol ++ "[];\nextern unsigned long " ++ symbol ++
    "_size;\n"

def definition (header symbol file : String) : String :=
  "// Auto-generated by tilesetc.py\n#include \"" ++ header ++ "\"\nunsigned char " ++ symbol ++
    "[] = \x7b\n    #embed \"" ++ file ++ "\"\n\x7d;\nunsigned long " ++ symbol ++
    "_size = (unsigned long)sizeof(" ++ symbol ++ ");\n"

def blobSymbol (ts : Tileset) : String :=
  Text.identifier ts.name ++ "_tset_blob"

def charsetSymbol (ts : Tileset) : String :=
  Text.identifier ts.name ++ "_charset_blob"

def blobDeclaration (ts : Tileset) : String :=
  declaration (blobSymbol ts)

def blobDefinition (ts : Tileset) (file : String) : String :=
  definition ("tilesets/" ++ Text.identifier ts.name ++ "_tset-blob.h") (blobSymbol ts) file

def charsetDeclaration (ts : Tileset) : String :=
  declaration (charsetSymbol ts)

def charsetDefinition (ts : Tileset) (file : String) : String :=
  definition ("charset/" ++ Text.identifier ts.name ++ "_charset-blob.h") (charsetSymbol ts) file

/-- The definition that takes the blob from the place where it is usually written. -/
def defaultBlobDefinition (ts : Tileset) : String :=
  blobDefinition ts ("../../gen/assets/" ++ ts.name ++ ".bin")

def tileListing (t : Tile) : String :=
  "  id=" ++ Number.decimalRight 3 t.id ++ " name=" ++ t.name ++ " chars=" ++
    Text.join "," (t.chars.toList.map (Number.hexUpper 2)) ++ " colorMode=" ++
    Number.decimal t.colorMode.code ++ " colors=" ++
    Text.join "," (t.colors.toList.map Number.decimal) ++ " flags=0x" ++
    Number.hexUpper 4 t.flags ++ "\n"

def listing (ts : Tileset) : String :=
  "TSET name=\"" ++ ts.name ++ "\" blob_size=" ++ toString (blob ts).length ++ "\n" ++
    "GLOBAL bg=" ++ Number.decimal ts.background ++ " mc1=" ++ Number.decimal ts.multicolor1 ++
    " mc2=" ++ Number.decimal ts.multicolor2 ++ "\n" ++
    (if ts.charset.isEmpty then "" else "CHARSET " ++ ts.charset ++ "\n") ++
    "HDR records=" ++ toString headerSize ++ " tileCount=" ++ toString ts.tiles.length ++
    " recordSize=" ++ toString recordSize ++ "\n\nTILES\n" ++
    String.join (ts.sortedTiles.map tileListing)

def quadJson (q : Quad Int) : Json :=
  .arr (q.toList.map .int)

def tileSummary (t : Tile) : Json :=
  .obj [("id", .int t.id), ("name", .str t.name), ("chars", quadJson t.chars),
    ("color_mode", .int t.colorMode.code), ("colors", quadJson t.colors), ("flags", .int t.flags)]

def objectFields (o : ObjectDef) : List (String × Json) :=
  [("name", .str o.name), ("w", .int o.width), ("h", .int o.height),
    ("tiles", .arr (o.tiles.map .str))]

/-- An object with its character, or with none. -/
def linkedObjectSummary (o : ObjectDef) : Json :=
  .obj (objectFields o ++ [("char", match o.char with | some c => .str c | none => .null)])

/-- An object with its character if it has one. -/
def listedObjectSummary (o : ObjectDef) : Json :=
  .obj (objectFields o ++ match o.char with | some c => [("char", .str c)] | none => [])

def summary (ts : Tileset) (objects : List Json) : Json :=
  .obj [("name", .str ts.name), ("tile_w", .int ts.tileWidth), ("tile_h", .int ts.tileHeight),
    ("bg_color", .int ts.background), ("mc1_color", .int ts.multicolor1),
    ("mc2_color", .int ts.multicolor2), ("charset", .str ts.charset),
    ("tile_count", .int ts.tiles.length), ("record_size", .int recordSize),
    ("ofs_records", .int headerSize),
    ("flagbits", .obj (flagNames.zipIdx.map fun (name, bit) => (name, .int bit))),
    ("objects", .arr objects), ("tiles", .arr (ts.sortedTiles.map tileSummary)),
    ("blob_size", .int (blob ts).length)]

end EscapeRoom.Tileset
