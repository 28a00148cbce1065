/-!
# Exact rounding

Quotients of natural numbers rounded to the nearest integer, a half going to the even neighbour, and
the numbers of 64 bits as exact binary fractions.
-/

namespace EscapeRoom.Number

/-- The integer nearest to `num / den`; a half goes to the even neighbour. -/
def roundDiv (num den : Nat) : Nat :=
  let q := num / den
  let twice := 2 * (num % den)
  if twice < den then q
  else if den < twice then q + 1
  else if q % 2 = 0 then q else q + 1

/-- A finite binary fraction `(-1)^negative · significand · 2^exponent`. -/
structure Binary where
  negative : Bool
  significand : Nat
  exponent : Int
  deriving Repr, DecidableEq

def Binary.ratio (b : Binary) : Nat × Nat :=
  (b.significand <<< b.exponent.toNat, 1 <<< (-b.exponent).toNat)

/-- A number of 64 bits. A finite one has a significand below `2^53`, which is at least `2^52` unless the
exponent is the least one, `-1074`. -/
inductive Double where
  | finite (value : Binary)
  | infinite (negative : Bool)
  | undefined
  deriving Repr, DecidableEq

namespace Double

def zero (negative : Bool) : Double :=
  .finite ⟨negative, 0, -1074⟩

/-- The greatest power of two that is at most `num / den`, by its exponent. -/
def leadingBit (num den : Nat) : Int :=
  let guess : Int := (num.log2 : Int) - den.log2
  if den <<< guess.toNat ≤ num <<< (-guess).toNat then guess else guess - 1

/-- The number nearest to `± num / den`. -/
def ofRatio (negative : Bool) (num den : Nat) : Double :=
  if num = 0 then zero negative
  else
    let place := max (leadingBit num den - 52) (-1074)
    let significand := roundDiv (num <<< (-place).toNat) (den <<< place.toNat)
    -- A significand may round up to the next power of two.
    let (significand, place) :=
      if significand = 1 <<< 53 then (1 <<< 52, place + 1) else (significand, place)
    if 971 < place then .infinite negative else .finite ⟨negative, significand, place⟩

/-- The number nearest to `± digits · 10^power`. -/
def ofDecimal (negative : Bool) (digits : Nat) (power : Int) : Double :=
  let size : Int := ((Nat.toDigits 10 digits).length : Int) + power
  if digits = 0 || size < -400 then zero negative
  else if 400 < size then .infinite negative
  else ofRatio negative (digits * Nat.pow 10 power.toNat) (Nat.pow 10 (-power).toNat)

def ofInt (n : Int) : Double :=
  ofRatio (n < 0) n.natAbs 1

/-- The 64 bits of a number: its sign, eleven bits for the exponent, and 52 bits for the significand. -/
def bits : Double → Nat
  | .finite b =>
    let rest := if b.significand < 1 <<< 52 then b.significand
      else (b.exponent + 1074).toNat <<< 52 + b.significand
    (if b.negative then 1 <<< 63 else 0) + rest
  | .infinite negative => (if negative then 1 <<< 63 else 0) + 2047 <<< 52
  | .undefined => 2047 <<< 52 + 1 <<< 51

def isNegative : Double → Bool
  | .finite b => b.negative && b.significand != 0
  | .infinite negative => negative
  | .undefined => false

def isZero : Double → Bool
  | .finite b => b.significand = 0
  | _ => false

/-- The integer that is left when the places after the point are cut off. -/
def truncate? : Double → Option Int
  | .finite b =>
    let (num, den) := b.ratio
    some (if b.negative then -(num / den : Nat) else (num / den : Nat))
  | _ => none

/-- The integer that the number is, if it is one. -/
def integer? : Double → Option Int
  | .finite b =>
    let (num, den) := b.ratio
    if num % den = 0 then some (if b.negative then -(num / den : Nat) else (num / den : Nat)) else none
  | _ => none

end Double

end EscapeRoom.Number
