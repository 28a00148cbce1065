import EscapeRoom.Number.Literal
import EscapeRoom.Number.Rounding
import EscapeRoom.Text.Case

/-!
# Texts of real numbers

A real number is written with digits, at most one point and at most one exponent, or by name. Single
underscores may stand between digits.
-/

namespace EscapeRoom.Number

/-- The characters without underscores, provided that each of those stands between two digits. -/
def dropInnerUnderscores (afterDigit : Bool) : List Char → Option (List Char)
  | [] => some []
  | '_' :: c :: rest =>
    if afterDigit && Text.isAsciiDigit c then (dropInnerUnderscores true rest).map (c :: ·) else none
  | '_' :: [] => none
  | c :: rest => (dropInnerUnderscores (Text.isAsciiDigit c) rest).map (c :: ·)

def dropSign : List Char → List Char
  | '+' :: rest => rest
  | '-' :: rest => rest
  | cs => cs

def isExponent (cs : List Char) : Bool :=
  match cs with
  | [] => true
  | c :: rest =>
    let digits := dropSign rest
    (c = 'e' || c = 'E') && !digits.isEmpty && digits.all Text.isAsciiDigit

def isDecimalNumeral (cs : List Char) : Bool :=
  let whole := cs.takeWhile Text.isAsciiDigit
  match cs.dropWhile Text.isAsciiDigit with
  | '.' :: rest =>
    let part := rest.takeWhile Text.isAsciiDigit
    (!whole.isEmpty || !part.isEmpty) && isExponent (rest.dropWhile Text.isAsciiDigit)
  | rest => !whole.isEmpty && isExponent rest

/-- The number of digits with at most one point, and an exponent. -/
def decimalValue (negative : Bool) (cs : List Char) : Double :=
  let value (digits : List Char) : Nat := digitsValue 10 (digits.map fun c => c.toNat - 48)
  let mantissa := cs.takeWhile fun c => c != 'e' && c != 'E'
  let places := (mantissa.dropWhile (· != '.')).drop 1
  let power : Int := match cs.drop (mantissa.length + 1) with
    | '-' :: digits => -(value digits : Nat)
    | digits => value (dropSign digits)
  .ofDecimal negative (value (mantissa.filter (· != '.'))) (power - places.length)

def realValue? (s : String) : Option Double :=
  match dropInnerUnderscores false (Text.trimChars (s.toList.map plainChar)) with
  | none => none
  | some cs =>
    let negative := cs.head? = some '-'
    let digits := dropSign cs
    if isDecimalNumeral digits then some (decimalValue negative digits)
    else match String.ofList (digits.map Char.toLower) with
      | "inf" | "infinity" => some (.infinite negative)
      | "nan" => some .undefined
      | _ => none

def isRealText (s : String) : Bool :=
  (realValue? s).isSome

end EscapeRoom.Number
