import EscapeRoom.Number.Format
import EscapeRoom.Number.Shortest
import EscapeRoom.Table
import EscapeRoom.Text.Cut
import EscapeRoom.Text.Quoted

/-!
# JSON values

Objects keep the order of their keys. Integers are unbounded and kept apart from fractions.
-/

namespace EscapeRoom

inductive Json where
  | null
  | bool (value : Bool)
  | int (value : Int)
  | real (value : Number.Double)
  | str (value : String)
  | arr (items : List Json)
  | obj (members : List (String × Json))
  deriving Inhabited, BEq

namespace Json

def member? (v : Json) (key : String) : Option Json :=
  match v with
  | .obj members => Table.get? members key
  | _ => none

def str? : Json → Option String
  | .str s => some s
  | _ => none

def int? : Json → Option Int
  | .int n => some n
  | _ => none

def bool? : Json → Option Bool
  | .bool b => some b
  | _ => none

/-- The number that a value is; a truth value counts as one or zero. -/
def number? : Json → Option Number.Double
  | .bool b => some (.ofInt (if b then 1 else 0))
  | .int n => some (.ofInt n)
  | .real x => some x
  | _ => none

def arr? : Json → Option (List Json)
  | .arr items => some items
  | _ => none

def obj? : Json → Option (List (String × Json))
  | .obj members => some members
  | _ => none

/-- A character of a string, ASCII only: other characters are written as UTF-16 units. -/
def escapeChar (c : Char) : List Char :=
  let unit (n : Nat) := '\\' :: 'u' :: Text.lowerHex 4 n
  if c = '"' then ['\\', '"']
  else if c = '\\' then ['\\', '\\']
  else if c = '\n' then ['\\', 'n']
  else if c = '\r' then ['\\', 'r']
  else if c = '\t' then ['\\', 't']
  else if c.toNat = 8 then ['\\', 'b']
  else if c.toNat = 12 then ['\\', 'f']
  else if 32 ≤ c.toNat && c.toNat < 127 then [c]
  else if c.toNat < 0x10000 then unit c.toNat
  else
    let n := c.toNat - 0x10000
    unit (0xD800 + n / 1024) ++ unit (0xDC00 + n % 1024)

def stringText (s : String) : String :=
  String.ofList ('"' :: s.toList.flatMap escapeChar ++ ['"'])

def realText : Number.Double → String
  | .undefined => "NaN"
  | .infinite true => "-Infinity"
  | .infinite false => "Infinity"
  | x => x.text

def newline (indent depth : Nat) : String :=
  String.ofList ('\n' :: List.replicate (indent * depth) ' ')

mutual

def compact : Json → String
  | .null => "null"
  | .bool true => "true"
  | .bool false => "false"
  | .int n => Number.decimal n
  | .real x => realText x
  | .str s => stringText s
  | .arr items => "[" ++ compactItems items ++ "]"
  | .obj members => "\x7b" ++ compactMembers members ++ "\x7d"

def compactItems : List Json → String
  | [] => ""
  | [v] => compact v
  | v :: rest => compact v ++ ", " ++ compactItems rest

def compactMembers : List (String × Json) → String
  | [] => ""
  | [(key, v)] => stringText key ++ ": " ++ compact v
  | (key, v) :: rest => stringText key ++ ": " ++ compact v ++ ", " ++ compactMembers rest

end

mutual

/-- The text of a value with every item on a line of its own, indented by its depth. -/
def indented (indent depth : Nat) : Json → String
  | .arr (v :: rest) =>
    "[" ++ newline indent (depth + 1) ++ indentedItems indent (depth + 1) (v :: rest) ++
      newline indent depth ++ "]"
  | .obj (m :: rest) =>
    "\x7b" ++ newline indent (depth + 1) ++ indentedMembers indent (depth + 1) (m :: rest) ++
      newline indent depth ++ "\x7d"
  | .arr [] => "[]"
  | .obj [] => "\x7b\x7d"
  | .null => "null"
  | .bool true => "true"
  | .bool false => "false"
  | .int n => Number.decimal n
  | .real x => realText x
  | .str s => stringText s

def indentedItems (indent depth : Nat) : List Json → String
  | [] => ""
  | [v] => indented indent depth v
  | v :: rest => indented indent depth v ++ "," ++ newline indent depth ++
      indentedItems indent depth rest

def indentedMembers (indent depth : Nat) : List (String × Json) → String
  | [] => ""
  | [(key, v)] => stringText key ++ ": " ++ indented indent depth v
  | (key, v) :: rest => stringText key ++ ": " ++ indented indent depth v ++ "," ++
      newline indent depth ++ indentedMembers indent depth rest

end

def pretty (indent : Nat) (v : Json) : String :=
  indented indent 0 v

end Json

end EscapeRoom
