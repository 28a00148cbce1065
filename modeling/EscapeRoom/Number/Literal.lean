import EscapeRoom.Text.Digit
import EscapeRoom.Text.Quoted

/-!
# Integer literals

A literal is an optional sign, an optional base mark (`0x`, `0o`, `0b`), and digits of any script with
single underscores between them; blanks may stand around it. Without a fixed base the mark decides,
and a decimal literal other than zero must not begin with a zero.
-/

namespace EscapeRoom.Number

/-- How a literal is read: in a fixed base, or in the base that its mark gives. -/
inductive Base where
  | marked
  | decimal
  | hexadecimal
  deriving Repr, DecidableEq

def Base.code : Base → Nat
  | .marked => 0
  | .decimal => 10
  | .hexadecimal => 16

inductive LiteralError where
  | malformed (base : Base) (text : String)
  | tooLong (digits : Nat)
  deriving Repr, DecidableEq

def maxDigits : Nat := 4300

def LiteralError.message : LiteralError → String
  | .malformed base text =>
    "invalid literal for int() with base " ++ toString base.code ++ ": " ++
      String.ofList ((Text.quoted text).toList.take 200)
  | .tooLong digits =>
    "Exceeds the limit (" ++ toString maxDigits ++
      " digits) for integer string conversion: value has " ++ toString digits ++
      " digits; use sys.set_int_max_str_digits() to increase the limit"

/-- Digits and blanks of any script in ASCII; any other character makes the literal malformed. -/
def plainChar (c : Char) : Char :=
  if c.toNat < 127 then c
  else if Text.isBlank c then ' '
  else match Text.digitValue? c with
    | some d => Char.ofNat (48 + d)
    | none => '?'

def isPlainBlank (c : Char) : Bool :=
  c = ' ' || (9 ≤ c.toNat && c.toNat ≤ 13)

def digitIn? (base : Nat) (c : Char) : Option Nat :=
  let d :=
    if '0' ≤ c && c ≤ '9' then c.toNat - 48
    else if 'a' ≤ c && c ≤ 'f' then c.toNat - 87
    else if 'A' ≤ c && c ≤ 'F' then c.toNat - 55
    else 16
  if d < base then some d else none

/-- The digits at the start of a text, single underscores between them left out, with what follows.
An underscore must stand between two digits. -/
def digitsFrom (base : Nat) (digits : List Nat) : List Char → Option (List Nat × List Char)
  | '_' :: c :: rest =>
    match digitIn? base c with
    | some d => if digits.isEmpty then none else digitsFrom base (d :: digits) rest
    | none => none
  | c :: rest =>
    match digitIn? base c with
    | some d => digitsFrom base (d :: digits) rest
    | none => if c = '_' then none else some (digits.reverse, c :: rest)
  | [] => some (digits.reverse, [])

def digitsValue (base : Nat) (digits : List Nat) : Nat :=
  digits.foldl (fun n d => n * base + d) 0

structure Numeral where
  base : Nat
  digits : List Nat
  rest : List Char

/-- The digits after a base mark, before which one underscore may stand. -/
def markedNumeral? (base : Nat) (cs : List Char) : Option Numeral :=
  let cs := match cs with
    | '_' :: rest => rest
    | _ => cs
  (digitsFrom base [] cs).map fun (digits, rest) => ⟨base, digits, rest⟩

def plainNumeral? (base : Nat) (cs : List Char) : Option Numeral :=
  (digitsFrom base [] cs).map fun (digits, rest) => ⟨base, digits, rest⟩

def markBase? (c : Char) : Option Nat :=
  if c = 'x' || c = 'X' then some 16
  else if c = 'o' || c = 'O' then some 8
  else if c = 'b' || c = 'B' then some 2
  else none

def numeral? (base : Base) (cs : List Char) : Option Numeral :=
  match base, cs with
  | .decimal, cs => plainNumeral? 10 cs
  | .hexadecimal, '0' :: m :: rest =>
    if m = 'x' || m = 'X' then markedNumeral? 16 rest else plainNumeral? 16 ('0' :: m :: rest)
  | .hexadecimal, cs => plainNumeral? 16 cs
  | .marked, '0' :: m :: rest =>
    match markBase? m with
    | some b => markedNumeral? b rest
    | none =>
      (plainNumeral? 10 ('0' :: m :: rest)).bind fun n =>
        if n.digits.all (· == 0) then some n else none
  | .marked, cs => plainNumeral? 10 cs

def literalSign : List Char → Int × List Char
  | '-' :: rest => (-1, rest)
  | '+' :: rest => (1, rest)
  | cs => (1, cs)

def parseLiteral (base : Base) (s : String) : Except LiteralError Int :=
  let malformed : Except LiteralError Int := .error (.malformed base s)
  let (sign, cs) := literalSign ((s.toList.map plainChar).dropWhile isPlainBlank)
  match numeral? base cs with
  | none => malformed
  | some n =>
    if n.base = 10 && maxDigits < n.digits.length then .error (.tooLong n.digits.length)
    else if n.digits.isEmpty || !(n.rest.all isPlainBlank) then malformed
    else .ok (sign * (digitsValue n.base n.digits : Nat))

end EscapeRoom.Number
