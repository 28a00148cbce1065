import EscapeRoom.Number.Format
import EscapeRoom.Text.Cut

/-!
# Sample tilesets

Tileset texts of any size that use every section of the format. The tiles run through all colours and
through three sets of flags; the objects are made of four tiles each.
-/

namespace EscapeRoom.Sample

/-- The colours that samples use, in the order of their numbers. -/
def colors : Array String :=
  #["black", "white", "red", "cyan", "purple", "green", "blue", "yellow", "orange", "brown", "lightred",
    "darkgray", "gray", "lightgreen", "lightblue", "lightgray"]

def color (i : Nat) : String :=
  colors.getD (i % 16) ""

def tileName (i : Nat) : String :=
  "T" ++ Number.decimalZeros 3 i

def tileFlags (i : Nat) : String :=
  match i % 3 with
  | 0 => "SOLID"
  | 1 => "SOLID|DECOR"
  | _ => "SOLID|DECOR|STANDABLE"

def four (f : Nat → String) : String :=
  Text.join "," ((List.range 4).map f)

/-- Every fifth tile has an id, and every second one a colour for each of its characters. -/
def tileLine (i : Nat) : String :=
  let id := if i % 5 = 0 then " id=" ++ toString i else ""
  let chars := four fun k => "$" ++ Number.hexUpper 2 ((4 * i + k) % 256 : Nat)
  let paint := if i % 2 = 0 then "color=" ++ color i else "colors=" ++ four fun k => color (i + k)
  "  " ++ tileName i ++ id ++ " chars=" ++ chars ++ " " ++ paint ++ " flags=" ++ tileFlags i

def objectLine (k : Nat) : String :=
  "  OBJ" ++ toString k ++ " size=2x2 tiles=" ++ four fun j => tileName (4 * k + j)

def tileChars : List Char :=
  ".#=_|+-0123456789ABCDEFGHIJKLMNOPQRSTUVWXYZabcdefghijklmnopqrstuvwxyz".toList

def objectChars : List Char :=
  "!@$%".toList

def charmapLines (chars : List Char) (names : List String) : List String :=
  (chars.zip names).map fun (c, name) => "  " ++ String.ofList [c] ++ " " ++ name

structure TilesetOptions where
  name : String := "bench"
  /-- The charset file; none is named if the text is empty. -/
  charset : String := ""
  withCharmap : Bool := true
  withObjects : Bool := true

/-- The number of objects in a sample with `tiles` tiles. -/
def TilesetOptions.objectCount (o : TilesetOptions) (tiles : Nat) : Nat :=
  if o.withObjects then min 8 (tiles / 4) else 0

def tilesetLines (tiles : Nat) (o : TilesetOptions) : List String :=
  let objects := o.objectCount tiles
  let charset := if o.charset.isEmpty then "" else " charset=" ++ o.charset
  ["TSET name=\"" ++ o.name ++ "\" tileSize=2x2 bgColor=black mc1Color=darkgray mc2Color=gray" ++ charset,
    "", "TILES"] ++
  (List.range tiles).map tileLine ++
  ["END", "", "; comment line",
    "TILE id=254 name=TILE_LEGACY chars=A,B,C,D colors=red,green,blue,cyan flags=SOLID|FLOOR", ""] ++
  (if objects = 0 then [] else "OBJECTS" :: (List.range objects).map objectLine ++ ["END", ""]) ++
  (if o.withCharmap then
    "CHARMAP" :: charmapLines tileChars ((List.range tiles).map tileName) ++
      charmapLines objectChars ((List.range objects).map fun k => "OBJ" ++ toString k) ++ ["END"]
  else []) ++
  [""]

def tilesetText (tiles : Nat) (o : TilesetOptions) : String :=
  Text.join "\n" (tilesetLines tiles o) ++ "\n"

end EscapeRoom.Sample
