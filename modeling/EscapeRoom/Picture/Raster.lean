import EscapeRoom.Bytes

/-!
# Rasters

A raster is a picture in which every pixel is the number of a colour.
-/

namespace EscapeRoom

structure Raster where
  width : Nat
  height : Nat
  pixels : Array Nat
  deriving Repr, DecidableEq

abbrev CharCell := List (List Nat)

namespace Raster

def ofFn (width height : Nat) (f : Nat → Nat → Nat) : Raster :=
  { width, height
    pixels := Array.ofFn (n := width * height) fun i => f (i.val % width) (i.val / width) }

def filled (width height color : Nat) : Raster :=
  { width, height, pixels := Array.replicate (width * height) color }

def pixel (r : Raster) (x y : Nat) : Nat :=
  r.pixels.getD (y * r.width + x) 0

/-- The block of eight by eight pixels with its top left corner at a place. -/
def cell (r : Raster) (x y : Nat) : CharCell :=
  (List.range 8).map fun dy => (List.range 8).map fun dx => r.pixel (x + dx) (y + dy)

def rows (r : Raster) : List (List Nat) :=
  (List.range r.height).map fun y => (List.range r.width).map fun x => r.pixel x y

def overlay (r : Raster) (x y : Nat) (top : Raster) : Raster :=
  { r with
    pixels := (List.range top.height).foldl (fun pixels dy =>
      (List.range top.width).foldl (fun pixels dx =>
        pixels.setIfInBounds ((y + dy) * r.width + (x + dx)) (top.pixel dx dy)) pixels) r.pixels }

/-- The raster with every pixel made a square of the given size. -/
def enlarge (r : Raster) (size : Nat) : Raster :=
  ofFn (r.width * size) (r.height * size) fun x y => r.pixel (x / size) (y / size)

end Raster

end EscapeRoom
