import EscapeRoom.Bytes
import EscapeRoom.Json.Value
import EscapeRoom.Number.Arithmetic
import EscapeRoom.Number.DecimalText
import EscapeRoom.Path

/-!
# Values of benches

A bench takes named values and gives one back. A value tells its type and has a text.
-/

namespace EscapeRoom.Bench

inductive CellKind where
  | octet
  | double
  deriving Repr, DecidableEq, BEq

inductive Value where
  | none
  | bool (b : Bool)
  | int (n : Int)
  | real (x : Number.Double)
  | text (s : String)
  | octets (bytes : Bytes) (growing : Bool)
  | list (items : List Value)
  | tuple (items : List Value)
  | set (items : List Value) (frozen : Bool)
  | dict (entries : List (Value × Value))
  | complex (re im : Number.Double)
  | date (year month day : Nat)
  | decimal (text : String)
  | fraction (num : Int) (den : Nat)
  | path (text : String)
  | uuid (digits : String)
  | array (kind : CellKind) (shape : List Nat) (cells : List Number.Double)
  | pair (a b : Value)
  | closed
  deriving BEq, Inhabited

namespace Value

def typeName : Value → String
  | .none => "NoneType"
  | .bool _ => "bool"
  | .int _ => "int"
  | .real _ => "float"
  | .text _ => "str"
  | .octets _ growing => if growing then "bytearray" else "bytes"
  | .list _ => "list"
  | .tuple _ => "tuple"
  | .set _ frozen => if frozen then "frozenset" else "set"
  | .dict _ => "dict"
  | .complex .. => "complex"
  | .date .. => "date"
  | .decimal _ => "Decimal"
  | .fraction .. => "Fraction"
  | .path _ => "PurePosixPath"
  | .uuid _ => "UUID"
  | .array .. => "ndarray"
  | .pair .. => "Pair"
  | .closed => "Opaque"

/-- A value by which equal members and keys are found: a whole number is told by its integer. -/
def key : Value → Value
  | .bool b => .int (if b then 1 else 0)
  | .real x => match x.integer? with
    | some n => .int n
    | Option.none => .real x
  | v => v

def setOf (frozen : Bool) (items : List Value) : Value :=
  .set (items.foldl (fun kept v => if kept.any fun w => w.key == v.key then kept else kept ++ [v]) [])
    frozen

def putEntry (k v : Value) : List (Value × Value) → List (Value × Value)
  | [] => [(k, v)]
  | e :: rest => if e.1.key == k.key then (e.1, v) :: rest else e :: putEntry k v rest

/-- The dictionary of some entries, a later entry taking the place of an earlier one. -/
def dictOf (entries : List (Value × Value)) : Value :=
  .dict (entries.foldl (fun d e => putEntry e.1 e.2 d) [])

def fractionOf (num den : Int) : Value :=
  let g := num.gcd den
  if g = 0 then .fraction 0 1
  else .fraction ((if den < 0 then -num else num) / g) (den.natAbs / g)

mutual

def ofJson : Json → Value
  | .null => .none
  | .bool b => .bool b
  | .int n => .int n
  | .real x => .real x
  | .str s => .text s
  | .arr items => .list (ofJsons items)
  | .obj members => .dict (ofMembers members)

def ofJsons : List Json → List Value
  | [] => []
  | v :: rest => ofJson v :: ofJsons rest

def ofMembers : List (String × Json) → List (Value × Value)
  | [] => []
  | (k, v) :: rest => (.text k, ofJson v) :: ofMembers rest

end

def octetText (b : UInt8) : List Char :=
  if b = 9 then ['\\', 't'] else if b = 10 then ['\\', 'n'] else if b = 13 then ['\\', 'r']
  else if b = 39 then ['\\', '\''] else if b = 92 then ['\\', '\\']
  else if 32 ≤ b && b < 127 then [Char.ofNat b.toNat]
  else '\\' :: 'x' :: Text.lowerHex 2 b.toNat

def octetsText (bytes : Bytes) : String :=
  "b'" ++ String.ofList (bytes.flatMap octetText) ++ "'"

/-- The parts of a text of hexadecimal digits, divided by hyphens. -/
def uuidText (digits : String) : String :=
  let cs := digits.toList.map Char.toLower
  let part (start length : Nat) : String := String.ofList ((cs.drop start).take length)
  Text.join "-" [part 0 8, part 8 4, part 12 4, part 16 4, part 20 12]

def tupleText (items : List String) : String :=
  "(" ++ Text.join ", " items ++ (if items.length = 1 then ",)" else ")")

def bracesText (items : List String) : String :=
  "\x7b" ++ Text.join ", " items ++ "\x7d"

mutual

def shown : Value → String
  | .none => "None"
  | .bool b => if b then "True" else "False"
  | .int n => Number.decimal n
  | .real x => x.text
  | .text s => Text.quoted s
  | .octets bytes growing =>
    if growing then "bytearray(" ++ octetsText bytes ++ ")" else octetsText bytes
  | .list items => "[" ++ Text.join ", " (shownAll items) ++ "]"
  | .tuple items => tupleText (shownAll items)
  | .set items frozen =>
    if items.isEmpty then (if frozen then "frozenset()" else "set()")
    else if frozen then "frozenset(" ++ bracesText (shownAll items) ++ ")"
    else bracesText (shownAll items)
  | .dict entries => bracesText (shownEntries entries)
  | .complex re im => "(" ++ re.text ++ (if im.sign then "" else "+") ++ im.text ++ "j)"
  | .date year month day =>
    "datetime.date(" ++ Text.join ", " [toString year, toString month, toString day] ++ ")"
  | .decimal s => "Decimal('" ++ Number.decimalText s ++ "')"
  | .fraction num den => "Fraction(" ++ Number.decimal num ++ ", " ++ toString den ++ ")"
  | .path s => "PurePosixPath(" ++ Text.quoted (Path.tidy s) ++ ")"
  | .uuid digits => "UUID('" ++ uuidText digits ++ "')"
  | .array _ _ cells => "array([" ++ Text.join ", " (cells.map Number.Double.text) ++ "])"
  | .pair a b => "Pair(a=" ++ shown a ++ ", b=" ++ shown b ++ ")"
  | .closed => "<__main__.Opaque object>"

def shownAll : List Value → List String
  | [] => []
  | v :: rest => shown v :: shownAll rest

def shownEntries : List (Value × Value) → List String
  | [] => []
  | (k, v) :: rest => (shown k ++ ": " ++ shown v) :: shownEntries rest

end

/-- The plain text of a value: a text is its own. -/
def plain : Value → String
  | .text s => s
  | v => v.shown

end Value

end EscapeRoom.Bench
