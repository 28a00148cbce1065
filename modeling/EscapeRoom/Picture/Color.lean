import EscapeRoom.Picture.Raster

/-!
# The sixteen colours

The display has sixteen colours with names. Colours of a picture are ranked by how many pixels have
them.
-/

namespace EscapeRoom.Color

/-- The colours with their names and their parts of red, green and blue. -/
def palette : List (String × UInt8 × UInt8 × UInt8) := [
  ("black", 0, 0, 0),
  ("white", 255, 255, 255),
  ("red", 136, 0, 0),
  ("cyan", 170, 255, 238),
  ("purple", 204, 68, 204),
  ("green", 0, 204, 85),
  ("blue", 0, 0, 170),
  ("yellow", 238, 238, 119),
  ("orange", 221, 136, 85),
  ("brown", 102, 68, 0),
  ("light_red", 255, 119, 119),
  ("dark_grey", 51, 51, 51),
  ("grey", 119, 119, 119),
  ("light_green", 170, 255, 102),
  ("light_blue", 0, 136, 255),
  ("light_grey", 187, 187, 187)]

def name? (color : Nat) : Option String :=
  (palette[color]?).map (·.1)

def rgb? (color : Nat) : Option Bytes :=
  (palette[color]?).map fun (_, r, g, b) => [r, g, b]

/-- How many pixels have each colour; there are counts for sixteen colours at least. -/
def counts (pixels : List Nat) : Array Nat :=
  let size := max 16 (pixels.foldl max 0 + 1)
  pixels.foldl (fun counts c => counts.modify c (· + 1)) (Array.replicate size 0)

/-- The colours by falling counts; of colours with equal counts the one with the larger number is
first. -/
def ranked (counts : Array Nat) : List Nat :=
  ((List.range counts.size).mergeSort fun a b =>
    decide (counts.getD a 0 ≤ counts.getD b 0)).reverse

end EscapeRoom.Color

namespace EscapeRoom.Raster

/-- The parts of red, green and blue of all pixels, if every pixel has one of the sixteen colours. -/
def rgb? (r : Raster) : Option Bytes :=
  let parts := Color.palette.toArray.map fun (_, r, g, b) => [r, g, b]
  r.pixels.toList.reverse.foldlM (fun bytes c => (parts[c]?).map (· ++ bytes)) []

end EscapeRoom.Raster
