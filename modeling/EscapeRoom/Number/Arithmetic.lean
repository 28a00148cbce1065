import EscapeRoom.Number.Rounding

/-!
# Arithmetic on numbers of 64 bits

Every operation gives the number nearest to the exact result. The exact value of a finite number is a
quotient of integers, and numbers are compared by their exact values.
-/

namespace EscapeRoom.Number

def Binary.signedRatio (b : Binary) : Int × Nat :=
  let (num, den) := b.ratio
  (if b.negative then -(num : Int) else num, den)

namespace Double

def neg : Double → Double
  | .finite b => .finite { b with negative := !b.negative }
  | .infinite negative => .infinite !negative
  | .undefined => .undefined

def add : Double → Double → Double
  | .finite a, .finite b =>
    let (m, d) := a.signedRatio
    let (n, e) := b.signedRatio
    let sum := m * e + n * d
    -- The sum of two zeros is negative only if both are.
    ofRatio (sum < 0 || (sum = 0 && a.negative && b.negative)) sum.natAbs (d * e)
  | .infinite s, .infinite t => if s = t then .infinite s else .undefined
  | .undefined, _ | _, .undefined => .undefined
  | .infinite s, _ | _, .infinite s => .infinite s

def sub (a b : Double) : Double :=
  a.add b.neg

def sign : Double → Bool
  | .finite b => b.negative
  | .infinite negative => negative
  | .undefined => false

def mul (a b : Double) : Double :=
  let negative := a.sign != b.sign
  match a, b with
  | .finite x, .finite y =>
    ofRatio negative (x.ratio.1 * y.ratio.1) (x.ratio.2 * y.ratio.2)
  | .undefined, _ | _, .undefined => .undefined
  | _, _ => if a.isZero || b.isZero then .undefined else .infinite negative

def div (a b : Double) : Double :=
  let negative := a.sign != b.sign
  match a, b with
  | .finite x, .finite y =>
    if y.significand = 0 then if x.significand = 0 then .undefined else .infinite negative
    else ofRatio negative (x.ratio.1 * y.ratio.2) (x.ratio.2 * y.ratio.1)
  | .finite _, .infinite _ => zero negative
  | .infinite _, .finite _ => .infinite negative
  | _, _ => .undefined

def lt : Double → Double → Bool
  | .finite a, .finite b =>
    let (m, d) := a.signedRatio
    let (n, e) := b.signedRatio
    decide (m * e < n * d)
  | .infinite s, .finite _ => s
  | .finite _, .infinite s => !s
  | .infinite s, .infinite t => s && !t
  | _, _ => false

/-- Whether a number is not above another; a number without a value is beside all others. -/
def le (a b : Double) : Bool :=
  match a, b with
  | .undefined, _ | _, .undefined => false
  | _, _ => !b.lt a

def min (a b : Double) : Double :=
  if b.lt a then b else a

def max (a b : Double) : Double :=
  if a.lt b then b else a

def sum (l : List Double) : Double :=
  l.foldl add (zero false)

end Double

end EscapeRoom.Number
