import EscapeRoom.Bytes
import EscapeRoom.Json.Read
import EscapeRoom.Path
import EscapeRoom.Picture.Png
import EscapeRoom.Table
import EscapeRoom.Text.Glob
import EscapeRoom.Text.Lines
import EscapeRoom.Text.Quoted
import EscapeRoom.Text.Utf8

/-!
# File trees

A file tree holds the directories and files of a project together with the directory in which commands
run. A place in it is the list of names that leads there from the top. Every write gives a file a new
modification time.
-/

namespace EscapeRoom

/-- The names that lead from the top of the file system to a place. -/
abbrev Place := List String

/-- What a file holds: bytes as they are, a picture that is written as PNG, or a JSON value that is
written with the given indentation. -/
inductive Content where
  | data (bytes : Bytes)
  | picture (raster : Raster)
  | json (indent : Nat) (value : Json)

def Content.bytes : Content → Bytes
  | .data bytes => bytes
  | .picture raster => Png.encode raster
  | .json indent value => Text.Utf8.encode (value.pretty indent)

def Content.ofText (s : String) : Content :=
  .data (Text.Utf8.encode s)

structure File where
  content : Content
  modified : Nat

structure FileTree where
  root : Place
  directories : List Place
  files : Table Place File
  clock : Nat := 1000000000

inductive FileError where
  | missing
  | isDirectory
  | notDirectory
  | exists
  deriving Repr, DecidableEq

def FileError.code : FileError → Nat
  | .missing => 2
  | .isDirectory => 21
  | .notDirectory => 20
  | .exists => 17

def FileError.text : FileError → String
  | .missing => "No such file or directory"
  | .isDirectory => "Is a directory"
  | .notDirectory => "Not a directory"
  | .exists => "File exists"

def FileError.message (e : FileError) (path : String) : String :=
  "[Errno " ++ toString e.code ++ "] " ++ e.text ++ ": " ++ Text.quoted path

inductive TextError where
  | file (error : FileError)
  | encoding (error : Text.Utf8.Error)
  deriving Repr, DecidableEq

def TextError.message (e : TextError) (path : String) : String :=
  match e with
  | .file e => e.message path
  | .encoding e => e.message

namespace Place

def path (p : Place) : String :=
  "/" ++ Text.join "/" p

end Place

namespace FileTree

def rootPath (t : FileTree) : String :=
  Place.path t.root

def isDirectoryAt (t : FileTree) (p : Place) : Bool :=
  p.isPrefixOf t.root || t.directories.contains p

def fileAt? (t : FileTree) (p : Place) : Option File :=
  Table.get? t.files p

/-- The place that names lead to from a directory; all but the last must lead to directories. -/
def walk (t : FileTree) (here : Place) : List String → Except FileError Place
  | [] => .ok here
  | name :: rest =>
    if !t.isDirectoryAt here then
      .error (if (t.fileAt? here).isSome then .notDirectory else .missing)
    else if name = ".." then walk t here.dropLast rest
    else walk t (here ++ [name]) rest

/-- Every part of a path; a slash at the end asks for a directory. -/
def steps (path : String) : List String :=
  (Text.parts '/' path).filter (! String.isEmpty ·)

/-- The place that a path leads to, whether or not there is something. -/
def locate (t : FileTree) (path : String) : Except FileError Place :=
  if path.isEmpty then .error .missing
  else
    match t.walk (if Path.isAbsolute path then [] else t.root)
        ((steps path).filter (· != ".")) with
    | .error e => .error e
    | .ok place =>
      let wantsDirectory := path.toList.getLast? = some '/' || (steps path).getLast? = some "."
      if wantsDirectory && !t.isDirectoryAt place then
        .error (if (t.fileAt? place).isSome then .notDirectory else .missing)
      else .ok place

def isFile (t : FileTree) (path : String) : Bool :=
  match t.locate path with
  | .ok place => (t.fileAt? place).isSome
  | .error _ => false

def isDirectory (t : FileTree) (path : String) : Bool :=
  match t.locate path with
  | .ok place => t.isDirectoryAt place
  | .error _ => false

def exists? (t : FileTree) (path : String) : Bool :=
  t.isFile path || t.isDirectory path

def bytes (t : FileTree) (path : String) : Except FileError Bytes :=
  match t.locate path with
  | .error e => .error e
  | .ok place =>
    match t.fileAt? place with
    | some f => .ok f.content.bytes
    | none => .error (if t.isDirectoryAt place then .isDirectory else .missing)

def normalized (s : String) : String :=
  String.ofList (Text.normalizeEnds s.toList)

def linewiseText (t : FileTree) (path : String) : Except TextError String :=
  match t.bytes path with
  | .error e => .error (.file e)
  | .ok content =>
    match Text.Utf8.decodeBlocks content with
    | .error e => .error (.encoding e)
    | .ok s => .ok (normalized s)

def text (t : FileTree) (path : String) : Except TextError String :=
  match t.bytes path with
  | .error e => .error (.file e)
  | .ok content =>
    match Text.Utf8.decode content with
    | .error e => .error (.encoding e)
    | .ok s => .ok (normalized s)

inductive JsonError where
  | text (error : TextError)
  | json (error : Json.ReadError)
  deriving Repr, DecidableEq

def json (t : FileTree) (path : String) : Except JsonError Json :=
  let parsed := do
    let source ← (t.text path).mapError JsonError.text
    (Json.read source).mapError .json
  match t.locate path with
  | .error _ => parsed
  | .ok place =>
    match t.fileAt? place with
    | some ⟨.json _ value, _⟩ => .ok value
    | _ => parsed

/-- The modification time of what a path leads to, and zero if there is nothing. -/
def modified (t : FileTree) (path : String) : Except FileError Nat :=
  match t.locate path with
  | .error .missing => .ok 0
  | .error e => .error e
  | .ok place =>
    match t.fileAt? place with
    | some f => .ok f.modified
    | none => .ok (if t.isDirectoryAt place then 1 else 0)

def putAt (t : FileTree) (place : Place) (content : Content) : FileTree :=
  { t with files := t.files.put place ⟨content, t.clock⟩, clock := t.clock + 1 }

def write (t : FileTree) (path : String) (content : Content) : Except FileError FileTree :=
  match t.locate path with
  | .error e => .error e
  | .ok place =>
    if t.isDirectoryAt place then .error .isDirectory
    else if (t.fileAt? place.dropLast).isSome then .error .notDirectory
    else if !t.isDirectoryAt place.dropLast then .error .missing
    else .ok (t.putAt place content)

def addDirectory (t : FileTree) (place : Place) : FileTree :=
  if t.isDirectoryAt place then t else { t with directories := t.directories ++ [place] }

def addDirectories (t : FileTree) (place : Place) : FileTree :=
  (List.range place.length).foldl (fun t n => t.addDirectory (place.take (n + 1))) t

/-- The directories that names lead through from one that is there, made where they are missing. -/
def makeAlong (t : FileTree) (here : Place) : List String → Except FileError FileTree
  | [] => .ok t
  | name :: rest =>
    let next := if name = ".." then here.dropLast else here ++ [name]
    if (t.fileAt? next).isSome then .error (if rest.isEmpty then .exists else .notDirectory)
    else makeAlong (t.addDirectory next) next rest

/-- The directories that a path leads through and to, made where they are missing. -/
def makeDirectories (t : FileTree) (path : String) : Except FileError FileTree :=
  if path.isEmpty then .error .missing
  else t.makeAlong (if Path.isAbsolute path then [] else t.root) (Path.components path)

def remove (t : FileTree) (place : Place) : FileTree :=
  { t with files := t.files.filter fun e => e.1 != place }

/-- The tree in which the file at a place was last changed at a time. -/
def setModified (t : FileTree) (place : Place) (time : Nat) : FileTree :=
  { t with files := t.files.map fun e =>
      if e.1 = place then (e.1, { e.2 with modified := time }) else e }

/-- The files below the root that are new since an earlier tree or have other bytes than in it, by their
paths from the root. -/
def changesSince (t before : FileTree) : List (String × Content) :=
  t.files.filterMap fun (place, f) =>
    let same := (before.fileAt? place).any fun old => old.content.bytes == f.content.bytes
    if same || !t.root.isPrefixOf place then none
    else some (Text.join "/" (place.drop t.root.length), f.content)

def entries (t : FileTree) (place : Place) : List String :=
  let children := (t.directories ++ t.files.keys).filterMap fun p =>
    if p.dropLast = place && p.length = place.length + 1 then p.getLast? else none
  match t.root.drop place.length with
  | name :: _ => if place.isPrefixOf t.root then name :: children else children
  | [] => children

/-- The paths in a directory whose names a pattern stands for, in order and each once. -/
def glob (t : FileTree) (directory pattern : String) : List String :=
  match t.locate directory with
  | .error _ => []
  | .ok place =>
    if !t.isDirectoryAt place then []
    else if Glob.isPattern pattern then
      (((t.entries place).filter (Glob.matchName pattern)).map (Path.join directory)).eraseDups.mergeSort
        fun a b => decide (a ≤ b)
    else if t.exists? (Path.join directory pattern) then [Path.join directory pattern]
    else []

end FileTree

end EscapeRoom
