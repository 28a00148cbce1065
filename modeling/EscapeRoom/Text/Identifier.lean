import EscapeRoom.Text.Blank
import EscapeRoom.Text.Case
import EscapeRoom.Text.Letter

/-!
# Names for generated files and symbols

Names that people choose are brought into the form that file names and symbols of generated sources
need.
-/

namespace EscapeRoom.Text

def isAsciiAlphanumeric (c : Char) : Bool :=
  isAsciiLetter c || isAsciiDigit c

/-- A text in which every character that is no ASCII letter, digit or underscore is an underscore. -/
def identifier (s : String) : String :=
  String.ofList (s.toList.map fun c => if isAsciiAlphanumeric c || c = '_' then c else '_')

/-- A text in which every run of characters that are no ASCII letters or digits is one underscore;
`inside` tells whether such a run comes before. -/
def joinWords (inside : Bool) : List Char → List Char
  | [] => []
  | c :: rest =>
    if isAsciiAlphanumeric c then c :: joinWords false rest
    else if inside then joinWords true rest
    else '_' :: joinWords true rest

def dropUnderscores (cs : List Char) : List Char :=
  ((cs.dropWhile (· == '_')).reverse.dropWhile (· == '_')).reverse

/-- The words of a name in lower case with underscores between them; `instead` if there are none. -/
def slug (instead name : String) : String :=
  let words := dropUnderscores (joinWords false (trimChars name.toList))
  if words.isEmpty then instead else lower (String.ofList words)

end EscapeRoom.Text
