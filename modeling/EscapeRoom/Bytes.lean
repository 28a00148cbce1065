/-!
# Bytes and words

Blobs are lists of bytes. Integers are stored modulo the size of their field, words with the low byte
first.
-/

namespace EscapeRoom

abbrev Bytes := List UInt8

def byteOf (n : Int) : UInt8 :=
  UInt8.ofNat (n % 256).toNat

def wordOf (n : Int) : Bytes :=
  [byteOf n, byteOf (n / 256)]

namespace Bytes

def get (b : Bytes) (i : Nat) : UInt8 :=
  b.getD i 0

def word (b : Bytes) (i : Nat) : Nat :=
  (b.get i).toNat + 256 * (b.get (i + 1)).toNat

def ofAscii (s : String) : Bytes :=
  s.toList.map fun c => UInt8.ofNat c.toNat

def dropZeros (b : Bytes) : Bytes :=
  (b.reverse.dropWhile (· == 0)).reverse

def hexDigit (n : Nat) : Char :=
  if n < 10 then Char.ofNat (48 + n) else Char.ofNat (87 + n)

def toHex (b : Bytes) : String :=
  String.ofList (b.flatMap fun x => [hexDigit (x.toNat / 16), hexDigit (x.toNat % 16)])

end Bytes

end EscapeRoom
