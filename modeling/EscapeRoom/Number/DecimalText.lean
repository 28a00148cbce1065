import EscapeRoom.Number.RealText

/-!
# Texts of decimals that keep their places

A decimal is written with the digits it was given. It is written out in full if it has no places to the
left of its digits to fill and at most five zeros after the point, and else with an exponent.
-/

namespace EscapeRoom.Number

/-- The text of digits `digits · 10^power`. -/
def placedText (digits : List Char) (power : Int) : List Char :=
  let point : Int := digits.length + power
  if power ≤ 0 && -5 ≤ point then
    if power = 0 then digits
    else if point ≤ 0 then '0' :: '.' :: List.replicate (-point).toNat '0' ++ digits
    else digits.take point.toNat ++ '.' :: digits.drop point.toNat
  else
    let mantissa := match digits with
      | c :: d :: rest => c :: '.' :: d :: rest
      | _ => digits
    let exponent := point - 1
    mantissa ++ 'E' :: (if exponent < 0 then '-' else '+') :: Nat.toDigits 10 exponent.natAbs

/-- The text of the decimal that a text stands for; a text that stands for none is kept. -/
def decimalText (s : String) : String :=
  let cs := s.toList
  let sign := if cs.head? = some '-' then ['-'] else []
  let cs := dropSign cs
  if isDecimalNumeral cs then
    let mantissa := cs.takeWhile fun c => c != 'e' && c != 'E'
    let places := (mantissa.dropWhile (· != '.')).drop 1
    let value (digits : List Char) : Int :=
      (digitsValue 10 (digits.map fun c => c.toNat - 48) : Nat)
    let power : Int := match cs.drop (mantissa.length + 1) with
      | '-' :: digits => -value digits
      | digits => value (dropSign digits)
    let digits := match (mantissa.filter (· != '.')).dropWhile (· == '0') with
      | [] => ['0']
      | digits => digits
    String.ofList (sign ++ placedText digits (power - places.length))
  else s

end EscapeRoom.Number
