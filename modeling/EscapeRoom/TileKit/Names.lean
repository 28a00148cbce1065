import EscapeRoom.Text.Case
import EscapeRoom.Text.Cut
import EscapeRoom.Text.Identifier

/-!
# Names and flags of a tile kit

Descriptions that people wrote become tile names of capital letters, digits and single underscores, and
lists of flags become names between bars.
-/

namespace EscapeRoom.TileKit

def isNameChar (c : Char) : Bool :=
  ('A' ≤ c && c ≤ 'Z') || Text.isAsciiDigit c

/-- A text in which every run of underscores is one underscore; `inside` tells whether one comes
before. -/
def singleUnderscores (inside : Bool) : List Char → List Char
  | [] => []
  | c :: rest =>
    if c = '_' then if inside then singleUnderscores true rest else c :: singleUnderscores true rest
    else c :: singleUnderscores false rest

def tileName (description : String) : String :=
  let cs := (Text.upper description).toList.map fun c => if isNameChar c then c else '_'
  match Text.dropUnderscores (singleUnderscores false cs) with
  | [] => "TILE"
  | name => String.ofList name

def separatesFlags (c : Char) : Bool :=
  c = ',' || c = '|' || Text.isBlank c

/-- The runs of characters that are not separators; `run` is the run read so far, last one first. -/
def flagRuns (run : List Char) : List Char → List (List Char)
  | [] => if run.isEmpty then [] else [run.reverse]
  | c :: rest =>
    if separatesFlags c then
      if run.isEmpty then flagRuns [] rest else run.reverse :: flagRuns [] rest
    else flagRuns (c :: run) rest

/-- The flags of a text in capital letters with bars between them. -/
def flagsText (flags : String) : String :=
  Text.join "|" ((flagRuns [] flags.toList).map fun run => Text.upper (String.ofList run))

end EscapeRoom.TileKit
