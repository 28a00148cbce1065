import EscapeRoom.Least
import EscapeRoom.Picture.Color
import EscapeRoom.Picture.Koala
import EscapeRoom.Table

/-!
# Multicolour characters

In multicolour mode a character has eight rows of four pixels, each two dots wide, and four colours:
three that all characters share and a local one. A block of dots is encoded with the local colour that
leaves the fewest dots wrong, and the shared colours of a picture are chosen in the same way.
-/

namespace EscapeRoom

structure SharedColors where
  background : Nat
  multicolor1 : Nat
  multicolor2 : Nat
  deriving Repr, DecidableEq

def SharedColors.color (s : SharedColors) (lc : Nat) : Nat → Nat
  | 0 => s.background
  | 1 => s.multicolor1
  | 2 => s.multicolor2
  | _ => lc

/-- An encoded character: its rows, its local colour and the number of dots that it gets wrong. -/
structure EncodedChar where
  bytes : Bytes
  lc : Nat
  error : Nat
  deriving Repr, DecidableEq

namespace Multicolor

def pairsOf : List Nat → List (Nat × Nat)
  | a :: b :: rest => (a, b) :: pairsOf rest
  | _ => []

def pairCost (p : Nat × Nat) (color : Nat) : Nat :=
  (if p.1 = color then 0 else 1) + (if p.2 = color then 0 else 1)

/-- How many of two dots are wrong with the best of the four colours. -/
def pairError (s : SharedColors) (lc : Nat) (p : Nat × Nat) : Nat :=
  min (min (pairCost p s.background) (pairCost p s.multicolor1))
    (min (pairCost p s.multicolor2) (pairCost p lc))

def pairCode (s : SharedColors) (lc : Nat) (p : Nat × Nat) : Nat :=
  let e := pairError s lc p
  if pairCost p s.background = e then 0
  else if pairCost p s.multicolor1 = e then 1
  else if pairCost p s.multicolor2 = e then 2
  else 3

def pairsError (s : SharedColors) (pairs : List (Nat × Nat)) (lc : Nat) : Nat :=
  pairs.foldl (fun e p => e + pairError s lc p) 0

/-- The first of the sixteen colours that leaves the fewest dots wrong, with their number. -/
def bestLocal (s : SharedColors) (pairs : List (Nat × Nat)) : Nat × Nat :=
  leastFrom (pairsError s pairs) 0 (pairsError s pairs 0) ((List.range 16).drop 1)

def rowByte (s : SharedColors) (lc : Nat) (row : List Nat) : UInt8 :=
  (pairsOf row).foldl (fun byte p => byte * 4 + UInt8.ofNat (pairCode s lc p)) 0

def encode (s : SharedColors) (cell : CharCell) : EncodedChar :=
  let (lc, error) := bestLocal s (cell.flatMap pairsOf)
  { bytes := cell.map (rowByte s lc), lc, error }

def renderByte (s : SharedColors) (lc : Nat) (byte : UInt8) : List Nat :=
  (List.range 4).flatMap fun i =>
    let color := s.color lc (Koala.code byte i)
    [color, color]

def render (s : SharedColors) (lc : Nat) (bytes : Bytes) : CharCell :=
  bytes.map (renderByte s lc)

inductive RenderError where
  | rowMissing
  | notAByte
  deriving Repr, DecidableEq

/-- The dots of a character, provided that it has eight rows and that its colours are bytes. -/
def renderChecked (s : SharedColors) (lc : Nat) (bytes : Bytes) : Except RenderError CharCell :=
  if 255 < s.background then .error .notAByte
  else (List.range 8).mapM fun y =>
    match bytes[y]? with
    | none => .error .rowMissing
    | some byte =>
      let row := renderByte s lc byte
      if row.any (255 < ·) then .error .notAByte else .ok row

/-- All pairs of different colours other than the background, in order. -/
def colorPairs (background : Nat) : List (Nat × Nat) :=
  let colors := (List.range 16).filter (· != background)
  colors.flatMap fun a => (colors.filter (a < ·)).map fun b => (a, b)

/-- How many dots are wrong in all blocks together, each block with its weight. -/
def totalError (s : SharedColors) (weighted : Table (List (Nat × Nat)) Nat) : Nat :=
  weighted.foldl (fun e (pairs, weight) => e + (bestLocal s pairs).2 * weight) 0

/-- The different elements of a list with the number of times that they occur. -/
def tally {α : Type} [DecidableEq α] (l : List α) : Table α Nat :=
  l.foldl (fun t a => t.put a (t.getD a 0 + 1)) []

/-- As many wrong dots as this are no better than any other number. -/
def errorLimit : Nat := 1000000000

/-- The two shared colours that leave the fewest dots wrong; the first pair if all leave too many wrong. -/
def chooseShared (cells : List CharCell) (background : Nat) : Nat × Nat :=
  let weighted := tally (cells.map fun c => c.flatMap pairsOf)
  let cost := fun (a, b) => totalError ⟨background, a, b⟩ weighted
  let pairs := colorPairs background
  (leastFrom cost (pairs.headD (0, 1)) errorLimit pairs).1

inductive RankError where
  | noPixels
  | background
  deriving Repr, DecidableEq

def commonestShared (cells : List CharCell) (background : Nat) : Except RankError (Nat × Nat) :=
  if cells.isEmpty then .error .noPixels
  else
    let counts := Color.counts (cells.flatMap List.flatten)
    if background < counts.size then
      match Color.ranked (counts.set! background 0) with
      | a :: b :: _ => .ok (a, b)
      | _ => .error .background
    else .error .background

def commonest (pixels : List Nat) : Nat × Nat × Nat :=
  match Color.ranked (Color.counts pixels) with
  | a :: b :: c :: _ => (a, b, c)
  | _ => (0, 0, 0)

end Multicolor

end EscapeRoom
