import EscapeRoom.Picture.Raster

/-!
# Koala pictures

A Koala file holds a multicolour picture of 40 by 25 characters: for every character eight bytes of
pixel codes, two colours in a screen byte and one in a colour byte, and one background colour for the
whole picture. Pixels are two dots wide. Two bytes may stand in front of it all.
-/

namespace EscapeRoom.Koala

structure Picture where
  bitmap : Array UInt8
  screen : Array UInt8
  colors : Array UInt8
  background : UInt8
  deriving Repr, DecidableEq

def pictureSize : Nat := 10001

/-- The parts of a file, or its size if that is not the size of a Koala file. -/
def ofBytes (file : Bytes) : Except Nat Picture :=
  let data := if file.length = pictureSize + 2 then file.drop 2 else file
  if data.length = pictureSize then
    .ok { bitmap := (data.take 8000).toArray
          screen := ((data.drop 8000).take 1000).toArray
          colors := ((data.drop 9000).take 1000).toArray
          background := data.getD 10000 0 }
  else .error data.length

/-- The code of two bits that a byte holds for one of its four pixels. -/
def code (byte : UInt8) (i : Nat) : Nat :=
  byte.toNat >>> (2 * (3 - i)) % 4

def Picture.dot (p : Picture) (x y : Nat) : Nat :=
  let char := y / 8 * 40 + x / 8
  match code (p.bitmap.getD (char * 8 + y % 8) 0) (x % 8 / 2) with
  | 0 => p.background.toNat
  | 1 => (p.screen.getD char 0).toNat / 16
  | 2 => (p.screen.getD char 0).toNat % 16
  | _ => (p.colors.getD char 0).toNat % 16

def Picture.raster (p : Picture) : Raster :=
  Raster.ofFn 320 200 p.dot

def sizeMessage (size : Nat) (path : String) : String :=
  "Unexpected Koala size " ++ toString size ++ " bytes: " ++ path

end EscapeRoom.Koala
