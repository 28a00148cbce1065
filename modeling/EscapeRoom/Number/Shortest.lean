import EscapeRoom.Number.Rounding

/-!
# Shortest decimals

A number of 64 bits is written with the fewest digits that read back as the same number, and of
those with the ones nearest to it. It is written out in full while the decimal point stands within
sixteen places after the first digit or four before it.
-/

namespace EscapeRoom.Number

/-- A decimal `0.d₁d₂… · 10^point`. -/
structure Decimal where
  digits : List Char
  point : Int
  deriving Repr, DecidableEq

/-- The least `j` with `den ≤ num · 10^j`, looked for up to `fuel` places. -/
def leadingPlaces (den : Nat) : Nat → Nat → Nat
  | 0, _ => 0
  | fuel + 1, num => if den ≤ num then 0 else leadingPlaces den fuel (num * 10) + 1

/-- The power of ten just above `num / den`. -/
def decimalPoint (num den : Nat) : Int :=
  if den ≤ num then (Nat.toDigits 10 (num / den)).length
  else 1 - (leadingPlaces den 400 num : Int)

/-- The reals that round to a number of 64 bits, in quarters of its last place. -/
structure RoundingInterval where
  low : Nat
  value : Nat
  high : Nat
  den : Nat
  closed : Bool

def Binary.interval (b : Binary) : RoundingInterval :=
  let up := 1 <<< b.exponent.toNat
  let below := if b.significand = 1 <<< 52 && -1074 < b.exponent then 1 else 2
  { low := (4 * b.significand - below) * up
    value := 4 * b.significand * up
    high := (4 * b.significand + 2) * up
    den := 4 <<< (-b.exponent).toNat
    closed := b.significand % 2 = 0 }

/-- Whether `num / den` rounds to the number. -/
def RoundingInterval.holds (i : RoundingInterval) (num den : Nat) : Bool :=
  let x := num * i.den
  let lo := i.low * den
  let hi := i.high * den
  if i.closed then lo ≤ x && x ≤ hi else lo < x && x < hi

/-- The digits on the grid of `count` places that read back, the nearer of two neighbours. -/
def RoundingInterval.onGrid (i : RoundingInterval) (point : Int) (count : Nat) : Option Nat :=
  let power := point - count
  let up := Nat.pow 10 power.toNat
  let down := Nat.pow 10 (-power).toNat
  let below := i.value * down / (i.den * up)
  let fits := fun d => i.holds (d * up) down
  match fits below, fits (below + 1) with
  | true, true => some (roundDiv (i.value * down) (i.den * up))
  | true, false => some below
  | false, true => some (below + 1)
  | false, false => none

def dropZeros (digits : List Char) : List Char :=
  (digits.reverse.dropWhile (· == '0')).reverse

def shortestDecimal (b : Binary) : Decimal :=
  let i := b.interval
  let point := decimalPoint i.value i.den
  let hit := (List.range 17).findSome? fun n => (i.onGrid point (n + 1)).map fun d => (d, n + 1)
  match hit with
  | some (d, count) =>
    let digits := Nat.toDigits 10 d
    ⟨dropZeros digits, point + digits.length - count⟩
  | none => ⟨Nat.toDigits 10 (i.value / i.den), point⟩

/-- Digits with the decimal point put in, and at least one place after it. -/
def Decimal.positional (d : Decimal) : List Char :=
  if d.point ≤ 0 then
    '0' :: '.' :: List.replicate (-d.point).toNat '0' ++ d.digits
  else
    let whole := d.digits.take d.point.toNat
    let places := d.digits.drop d.point.toNat
    whole ++ List.replicate (d.point.toNat - whole.length) '0' ++
      '.' :: (if places.isEmpty then ['0'] else places)

def Decimal.scientific (d : Decimal) : List Char :=
  let exponent := d.point - 1
  let digits := Nat.toDigits 10 exponent.natAbs
  let mantissa := match d.digits with
    | [] => ['0']
    | [c] => [c]
    | c :: rest => c :: '.' :: rest
  mantissa ++ 'e' :: (if exponent < 0 then '-' else '+') ::
    List.replicate (2 - digits.length) '0' ++ digits

namespace Double

def specialText : Double → String
  | .infinite true => "-inf"
  | .infinite false => "inf"
  | _ => "nan"

def text : Double → String
  | .finite b =>
    let sign := if b.negative then ['-'] else []
    if b.significand = 0 then String.ofList (sign ++ ['0', '.', '0'])
    else
      let d := shortestDecimal b
      String.ofList (sign ++
        if d.point ≤ -4 || 16 < d.point then d.scientific else d.positional)
  | x => x.specialText

/-- A number written with a fixed number of places, a half going to the even digit. -/
def fixedText (places : Nat) : Double → String
  | .finite b =>
    let (num, den) := b.ratio
    let scaled := roundDiv (num * Nat.pow 10 places) den
    let digits := Nat.toDigits 10 scaled
    let digits := List.replicate (places + 1 - digits.length) '0' ++ digits
    let cut := digits.length - places
    let sign := if b.negative then ['-'] else []
    String.ofList (sign ++ digits.take cut ++
      if places = 0 then [] else '.' :: digits.drop cut)
  | x => x.specialText

/-- The number nearest to `x` rounded to a number of places. -/
def roundTo (places : Nat) : Double → Double
  | .finite b =>
    let (num, den) := b.ratio
    ofDecimal b.negative (roundDiv (num * Nat.pow 10 places) den) (-(places : Int))
  | x => x

end Double

end EscapeRoom.Number
