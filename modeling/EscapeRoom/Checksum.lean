import EscapeRoom.Bytes

/-!
# Checksums

The 32-bit cyclic redundancy check with the reflected polynomial `EDB88320`, a byte at a time from a
table, and the two sums modulo 65521 that close a compressed stream.
-/

namespace EscapeRoom.Checksum

def shift (c : UInt32) : UInt32 :=
  if c &&& 1 = 1 then (c >>> 1) ^^^ 0xEDB88320 else c >>> 1

def table : Array UInt32 :=
  Array.ofFn (n := 256) fun i => (List.range 8).foldl (fun c _ => shift c) (UInt32.ofNat i.val)

def step (c : UInt32) (b : UInt8) : UInt32 :=
  (c >>> 8) ^^^ table.getD (c.toUInt8 ^^^ b).toNat 0

def crc32 (bytes : Bytes) : UInt32 :=
  (bytes.foldl step 0xFFFFFFFF) ^^^ 0xFFFFFFFF

def adler32 (bytes : Bytes) : UInt32 :=
  let (a, b) := bytes.foldl (fun (a, b) byte =>
    let a := (a + byte.toUInt32) % 65521
    (a, (b + a) % 65521)) ((1 : UInt32), (0 : UInt32))
  (b <<< 16) ||| a

end EscapeRoom.Checksum
