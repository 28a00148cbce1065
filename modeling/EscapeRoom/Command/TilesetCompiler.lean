import EscapeRoom.Command.Session
import EscapeRoom.Text.Replace
import EscapeRoom.Tileset.Read
import EscapeRoom.Tileset.Texts

/-!
# The tileset compiler

The command reads a tileset and writes its blob, the sources that embed the blob and the charset, the
header of tile ids, and a listing and a summary for inspection. Nothing is written if anything is wrong
with the tileset.
-/

namespace EscapeRoom.TilesetCompiler

def usage : Usage :=
  { program := "tilesetc.py"
    argument := some ⟨"input", true⟩
    options := [
      { names := ["-o", "--output"] },
      { names := ["--ids"] },
      { names := ["--blob-h"] },
      { names := ["--blob-c"] },
      { names := ["--charset-h"] },
      { names := ["--charset-c"] },
      { names := ["--sym"] },
      { names := ["--json"] }] }

/-- Complains about places in the input and ends with exit code 1. -/
def failAt {α : Type} (input : String) (faults : List (Nat × Nat × String)) : Act α := do
  let path := Path.absolute (← Act.root) input
  faults.forM fun (line, column, message) =>
    Act.complain (path ++ ":" ++ toString line ++ ":" ++ toString column ++ ": error: " ++ message)
  Act.exit 1

/-- The tileset of the input, if nothing is wrong with it. -/
def readInput (input : String) : Act LinkedTileset := do
  let tree ← Act.tree
  match tree.linewiseText input with
  | .error e => failAt input [(1, 1, e.message input)]
  | .ok source =>
    match (Tileset.read ⟨input, tree.isFile⟩ source).run .collecting with
    | (.ok ts, []) => return ts
    | (.ok _, issues) => failAt input (issues.map fun i => (i.line, i.column, i.message))
    | (.error (.issue i), _) => failAt input [(i.line, i.column, i.message)]
    | (.error (.broken b), _) => failAt input [(1, 1, b.message)]

/-- Where the outputs go. A path that is empty is not written. -/
structure Outputs where
  blob : String
  ids : String
  blobHeader : String
  blobSource : String
  charsetHeader : String
  charsetSource : String
  listing : String
  summary : String

/-- The places that the options give, and the usual ones for the others. -/
def Outputs.of (root : String) (a : Arguments) (ts : Tileset) : Outputs :=
  let usual (directory ending : String) : String := Path.join directory (ts.name ++ ending)
  let given (option directory ending : String) : String :=
    let path := a.value option ""
    Path.join root (if path.isEmpty then usual directory ending else path)
  let charset (option directory ending : String) : String :=
    if (a.value option "").isEmpty && ts.charset.isEmpty then "" else given option directory ending
  let analysis (option ending : String) : String :=
    match a.value option "AUTO" with
    | "" => ""
    | path =>
      Path.join root (match Path.normalize path with
        | "AUTO" => usual "gen/analysis/tilesets" ending
        | path => path)
  { blob := given "--output" "gen/assets" ".bin"
    ids := given "--ids" "gen/include/tilesets" "_tset_ids.h"
    blobHeader := given "--blob-h" "gen/include/tilesets" "_tset-blob.h"
    blobSource := given "--blob-c" "gen/src/tilesets" "_tset.c"
    charsetHeader := charset "--charset-h" "gen/include/charset" "_charset-blob.h"
    charsetSource := charset "--charset-c" "gen/src/charset" "_charset.c"
    listing := analysis "--sym" ".sym"
    summary := analysis "--json" ".json" }

def Outputs.made (o : Outputs) : List String :=
  [o.blob, o.listing, o.summary, o.blobHeader, o.blobSource, o.charsetHeader, o.charsetSource].filter
    (! String.isEmpty ·)

/-- The charset file as seen from the tileset, or from the directory above it. -/
def charsetFile (tree : FileTree) (input charset : String) : String :=
  let near := Path.join (Path.directory input) charset
  Path.normalize
    (if Path.isAbsolute charset then charset
    else if tree.isFile near then near
    else Path.join (Path.join (Path.directory input) "..") charset)

def writeLogged (path : String) (text : String) : Act Unit := do
  Act.writeText path text
  Act.print ("Wrote " ++ path)

def writeOutputs (input : String) (ts : LinkedTileset) (o : Outputs) : Act Unit := do
  let root ← Act.root
  o.made.forM fun path => Act.makeDirectories (Path.directory path)
  let blob := Tileset.blob ts.toTileset
  Act.write o.blob (.data blob)
  Act.print ("Wrote " ++ o.blob ++ " (" ++ toString blob.length ++ " bytes)")
  writeLogged o.ids (Tileset.idsHeader ts.toTileset)
  writeLogged o.blobHeader (Tileset.blobDeclaration ts.toTileset)
  let embedded := Path.relative root o.blob (Path.directory o.blobSource)
  writeLogged o.blobSource (Tileset.blobDefinition ts.toTileset (Text.replace embedded "\\" "/"))
  if !ts.charset.isEmpty then
    let file := charsetFile (← Act.tree) input ts.charset
    writeLogged o.charsetHeader (Tileset.charsetDeclaration ts.toTileset)
    writeLogged o.charsetSource (Tileset.charsetDefinition ts.toTileset
      (Path.relative root file (Path.directory o.charsetSource)))
  if !o.listing.isEmpty then
    writeLogged o.listing (Tileset.listing ts.toTileset)
  if !o.summary.isEmpty then
    writeLogged o.summary ((Tileset.summary ts.toTileset
      (ts.objects.values.map Tileset.linkedObjectSummary)).pretty 2)

def run (words : List String) : Act Unit := do
  let a ← Act.arguments usage words
  let input := a.argument.getD ""
  let ts ← readInput input
  writeOutputs input ts (Outputs.of (← Act.root) a ts.toTileset)

end EscapeRoom.TilesetCompiler
