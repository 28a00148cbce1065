import EscapeRoom.Text.Cut

/-!
# Paths

Paths are texts with `/` between their parts; one that begins with `/` is absolute. None of these
functions looks at the files.
-/

namespace EscapeRoom.Path

def isAbsolute (p : String) : Bool :=
  p.toList.head? = some '/'

/-- `b` as seen from the directory `a`. -/
def join (a b : String) : String :=
  if isAbsolute b then b
  else if a.isEmpty || a.toList.getLast? = some '/' then a ++ b
  else a ++ "/" ++ b

def fileName (p : String) : String :=
  String.ofList (p.toList.reverse.takeWhile (· != '/')).reverse

/-- What stands before the last slash, without slashes at its end unless it is all slashes. -/
def directory (p : String) : String :=
  let head := p.toList.reverse.dropWhile (· != '/')
  let trimmed := head.dropWhile (· == '/')
  String.ofList (if trimmed.isEmpty then head else trimmed).reverse

/-- A file name before and from its last dot on; dots at its start do not count. -/
def splitExtension (p : String) : String × String :=
  let cs := p.toList
  let name := (fileName p).toList
  let ending := name.reverse.takeWhile (· != '.')
  let before := name.take (name.length - ending.length - 1)
  if ending.length < name.length && !(before.all (· == '.')) then
    (String.ofList (cs.take (cs.length - ending.length - 1)),
      String.ofList (cs.drop (cs.length - ending.length - 1)))
  else (p, "")

def baseName (p : String) : String :=
  (splitExtension (fileName p)).1

/-- The parts of a path that are neither empty nor a single dot. -/
def components (p : String) : List String :=
  (Text.parts '/' p).filter fun c => !c.isEmpty && c != "."

/-- The parts left when every `..` takes away the part before it. What is already kept is in `kept`,
last first; in an absolute path nothing lies above the root. -/
def collapse (absolute : Bool) (kept : List String) : List String → List String
  | [] => kept.reverse
  | c :: rest =>
    if c != ".." then collapse absolute (c :: kept) rest
    else match kept with
      | k :: kept' => if k = ".." then collapse absolute (c :: kept) rest else collapse absolute kept' rest
      | [] => collapse absolute (if absolute then [] else [c]) rest

/-- Two slashes at the start of a path are kept, any other number is one. -/
def leadingSlashes (p : String) : String :=
  match p.toList with
  | '/' :: '/' :: '/' :: _ => "/"
  | '/' :: '/' :: _ => "//"
  | '/' :: _ => "/"
  | _ => ""

def normalize (p : String) : String :=
  let text := leadingSlashes p ++ Text.join "/" (collapse (isAbsolute p) [] (components p))
  if text.isEmpty then "." else text

def absolute (cwd p : String) : String :=
  normalize (join cwd p)

def dropCommon : List String → List String → List String × List String
  | a :: as, b :: bs => if a = b then dropCommon as bs else (a :: as, b :: bs)
  | as, bs => (as, bs)

/-- The way from the directory `start` to `p`. -/
def relative (cwd p start : String) : String :=
  let (up, down) := dropCommon (components (absolute cwd start)) (components (absolute cwd p))
  match up.map (fun _ => "..") ++ down with
  | [] => "."
  | parts => Text.join "/" parts

def tidy (p : String) : String :=
  let text := leadingSlashes p ++ Text.join "/" (components p)
  if text.isEmpty then "." else text

def parent (p : String) : String :=
  tidy (leadingSlashes p ++ Text.join "/" (components p).dropLast)

def lastName (p : String) : String :=
  (components p).getLast?.getD ""

/-- The last part of a path before and from its last dot on; a dot at either end does not count. -/
def splitSuffix (p : String) : String × String :=
  let name := (lastName p).toList
  let ending := name.reverse.takeWhile (· != '.')
  let before := name.length - ending.length - 1
  if ending.length < name.length && 0 < before && !ending.isEmpty then
    (String.ofList (name.take before), String.ofList (name.drop before))
  else (String.ofList name, "")

def stem (p : String) : String :=
  (splitSuffix p).1

def suffix (p : String) : String :=
  (splitSuffix p).2

/-- The way from a directory to a path whose parts begin with those of the directory. -/
def within? (directory p : String) : Option String :=
  let (start, parts) := (components directory, components p)
  if isAbsolute directory = isAbsolute p && start.isPrefixOf parts then
    some (tidy (Text.join "/" (parts.drop start.length)))
  else none

end EscapeRoom.Path
