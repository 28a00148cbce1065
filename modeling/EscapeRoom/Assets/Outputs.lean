import EscapeRoom.Files.Tree
import EscapeRoom.Text.Identifier
import EscapeRoom.Text.Replace

/-!
# Outputs of assets

What the compilers will write for a tileset or a level, told from the input file without compiling it.
-/

namespace EscapeRoom.Assets

/-- The base of the file names of a level: its name in lower case with an underscore for every
character that is neither letter nor digit. -/
def levelBase (name : String) : String :=
  let cs := (Text.trimChars name.toList).map fun c => if Text.isAlphanumeric c then c else '_'
  match Text.dropUnderscores cs with
  | [] => "level"
  | cs => Text.lower (String.ofList cs)

def statement (line : String) : String :=
  Text.trim (String.ofList (line.toList.takeWhile (· != ';')))

def dropQuotes (s : String) : String :=
  String.ofList ((s.toList.dropWhile (· == '"')).reverse.dropWhile (· == '"')).reverse

def lineName? (line : String) : Option String :=
  let s := statement line
  if Text.startsWith s "LEVEL" then
    ((Text.words s).find? (Text.startsWith · "name=")).map fun word =>
      dropQuotes (Text.trim (Text.dropChars 5 word))
  else none

/-- The name of a level: the first one that its file gives, or else the name of the file. -/
def levelName (t : FileTree) (path : String) : String :=
  let given := match t.text path with
    | .ok source => (Text.pieces source).findSome? lineName?
    | .error _ => none
  given.getD (Path.stem path)

def namesCharset (t : FileTree) (path : String) : Bool :=
  match t.text path with
  | .ok source =>
    match ((Text.pieces source).map statement).find? (Text.startsWith · "TSET") with
    | some s => Text.occursIn "charset=" s
    | none => false
  | .error _ => false

/-- The kinds of outputs of a tileset, each with its directory and the ending of its file names; the blob
comes first. -/
def tilesetKinds (withCharset : Bool) : List (String × String) :=
  [("gen/assets", ".bin"),
    ("gen/include/tilesets", "_tset_ids.h"),
    ("gen/include/tilesets", "_tset-blob.h"),
    ("gen/src/tilesets", "_tset.c"),
    ("gen/analysis/tilesets", ".sym"),
    ("gen/analysis/tilesets", ".json")] ++
  if withCharset then [("gen/include/charset", "_charset-blob.h"), ("gen/src/charset", "_charset.c")] else []

def levelKinds : List (String × String) :=
  [("gen/assets/levels", ".bin"),
    ("gen/include/levels", ".h"),
    ("gen/include/levels", "-blob.h"),
    ("gen/src/levels", ".c"),
    ("gen/analysis/levels", ".json"),
    ("gen/analysis/levels", ".sym")]

def pathsOf (root name : String) (kinds : List (String × String)) : List String :=
  kinds.map fun kind => Path.join root (kind.1 ++ "/" ++ name ++ kind.2)

def tilesetOutputs (t : FileTree) (root path : String) : List String :=
  pathsOf root (Path.stem path) (tilesetKinds (namesCharset t path))

def levelOutputs (t : FileTree) (root path : String) : List String :=
  pathsOf root (levelBase (levelName t path)) levelKinds

end EscapeRoom.Assets
