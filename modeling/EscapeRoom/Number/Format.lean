/-!
# Texts of integers

Decimal and hexadecimal texts with a least width. A sign counts towards the width; zeros are put
after it and blanks before it.
-/

namespace EscapeRoom.Number

def decimal (n : Int) : String :=
  toString n

/-- Decimal digits preceded by blanks up to `width` characters. -/
def decimalRight (width : Nat) (n : Int) : String :=
  let digits := (decimal n).toList
  String.ofList (List.replicate (width - digits.length) ' ' ++ digits)

/-- Decimal digits preceded by zeros up to `width` characters. -/
def decimalZeros (width : Nat) (n : Int) : String :=
  let digits := Nat.toDigits 10 n.natAbs
  let sign := if n < 0 then ['-'] else []
  String.ofList (sign ++ List.replicate (width - sign.length - digits.length) '0' ++ digits)

def upperHexDigits (n : Nat) : List Char :=
  (Nat.toDigits 16 n).map fun c => if 'a' ≤ c && c ≤ 'f' then Char.ofNat (c.toNat - 32) else c

/-- Hexadecimal digits preceded by zeros up to `width` characters. -/
def hexUpper (width : Nat) (n : Int) : String :=
  let digits := upperHexDigits n.natAbs
  let sign := if n < 0 then ['-'] else []
  String.ofList (sign ++ List.replicate (width - sign.length - digits.length) '0' ++ digits)

end EscapeRoom.Number
