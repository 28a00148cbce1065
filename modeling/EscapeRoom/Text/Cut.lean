import EscapeRoom.Text.Blank

/-!
# Cutting and searching texts

Positions count characters. A text is cut at every separator, so that joining the parts with the
separator gives the text back.
-/

namespace EscapeRoom.Text

/-- Where `pattern` first begins in a text. -/
def indexOf? (pattern : List Char) : List Char → Option Nat
  | [] => if pattern.isEmpty then some 0 else none
  | c :: rest =>
    if pattern.isPrefixOf (c :: rest) then some 0 else (indexOf? pattern rest).map (· + 1)

/-- The parts between separators; there is always one more part than separators. -/
def partsOf (sep : Char) : List Char → List (List Char)
  | [] => [[]]
  | c :: rest =>
    match partsOf sep rest with
    | [] => [[c]]
    | part :: parts => if c = sep then [] :: part :: parts else (c :: part) :: parts

def cutChars (sep : Char) : List Char → Option (List Char × List Char)
  | [] => none
  | c :: rest =>
    if c = sep then some ([], rest)
    else (cutChars sep rest).map fun (before, after) => (c :: before, after)

def parts (sep : Char) (s : String) : List String :=
  (partsOf sep s.toList).map String.ofList

def cut (sep : Char) (s : String) : Option (String × String) :=
  (cutChars sep s.toList).map fun (before, after) => (String.ofList before, String.ofList after)

def contains (s : String) (c : Char) : Bool :=
  s.toList.contains c

def startsWith (s start : String) : Bool :=
  start.toList.isPrefixOf s.toList

def endsWith (s ending : String) : Bool :=
  ending.toList.isSuffixOf s.toList

def dropChars (n : Nat) (s : String) : String :=
  String.ofList (s.toList.drop n)

def takeChars (n : Nat) (s : String) : String :=
  String.ofList (s.toList.take n)

def without (c : Char) (s : String) : String :=
  String.ofList (s.toList.filter (· != c))

/-- The first column (counted from one) at which `token` stands in `line`, or column one. -/
def columnOf (line token : String) : Nat :=
  if token.isEmpty then 1
  else match indexOf? token.toList line.toList with
    | some i => i + 1
    | none => 1

/-- The texts in order with `sep` between neighbours. -/
def join (sep : String) : List String → String
  | [] => ""
  | [s] => s
  | s :: rest => s ++ sep ++ join sep rest

end EscapeRoom.Text
