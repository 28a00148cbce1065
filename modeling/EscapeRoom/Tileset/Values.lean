import EscapeRoom.Number.Literal
import EscapeRoom.Tileset.Basic
import EscapeRoom.Text.Case
import EscapeRoom.Text.Cut

/-!
# Values of tileset fields

Numbers are integer literals, hexadecimal behind a dollar sign. Colours may be named, and screen
codes given as letters.
-/

namespace EscapeRoom.Tileset

inductive ValueError where
  | literal (error : Number.LiteralError)
  | wrongCount (expected : Int) (found : Nat) (text : String)
  | wideLetter (length : Nat)
  deriving Repr, DecidableEq

def ValueError.message : ValueError → String
  | .literal e => e.message
  | .wrongCount expected found text =>
    "Expected " ++ toString expected ++ " values, got " ++ toString found ++ ": " ++ text
  | .wideLetter length =>
    "ord() expected a character, but string of length " ++ toString length ++ " found"

def parseNumber (s : String) : Except ValueError Int :=
  let s := Text.trim s
  let parsed := match s.toList with
    | '$' :: digits => Number.parseLiteral .hexadecimal (String.ofList digits)
    | _ => Number.parseLiteral .marked s
  parsed.mapError .literal

def colorNames : Table String Int :=
  [("black", 0), ("white", 1), ("red", 2), ("cyan", 3), ("purple", 4), ("green", 5), ("blue", 6),
   ("yellow", 7), ("orange", 8), ("brown", 9), ("lightred", 10), ("darkgray", 11), ("gray", 12),
   ("lightgreen", 13), ("lightblue", 14), ("lightgray", 15)]

def greyNames : Table String Int :=
  [("darkgrey", 11), ("grey", 12), ("lightgrey", 15)]

/-- A colour's name as it is looked up: case, underscores, hyphens and spaces do not matter. -/
def colorKey (s : String) : String :=
  Text.without ' ' (Text.without '-' (Text.without '_' (Text.lower s)))

def parseColor (names : Table String Int) (s : String) : Except ValueError Int :=
  let s := Text.trim s
  match names.get? (colorKey s) with
  | some color => .ok color
  | none => parseNumber s

/-- A screen code: the place of a letter in the alphabet, or a number. -/
def parseScreenCode (s : String) : Except ValueError Int :=
  let s := Text.trim s
  match s.toList with
  | [c] =>
    if Text.isLetter c then
      match Text.upperChar c with
      | [u] => .ok ((u.toNat : Int) - 64)
      | us => .error (.wideLetter us.length)
    else parseNumber s
  | _ => parseNumber s

def parseList (parse : String → Except ValueError Int) (s : String) (count : Int) :
    Except ValueError (List Int) :=
  let parts := (Text.parts ',' s).map Text.trim
  if (parts.length : Int) ≠ count then .error (.wrongCount count parts.length s)
  else parts.mapM parse

def parseQuad (parse : String → Except ValueError Int) (s : String) :
    Except ValueError (Quad Int) :=
  match parseList parse s 4 with
  | .error e => .error e
  | .ok values =>
    match Quad.ofList? values with
    | some q => .ok q
    | none => .error (.wrongCount 4 values.length s)

end EscapeRoom.Tileset
