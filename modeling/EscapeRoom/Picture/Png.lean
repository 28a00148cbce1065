import EscapeRoom.Checksum
import EscapeRoom.Picture.Color

/-!
# PNG files

A raster is written with eight bits each of red, green and blue, without compression.
-/

namespace EscapeRoom.Png

def long (n : UInt32) : Bytes :=
  [(n >>> 24).toUInt8, (n >>> 16).toUInt8, (n >>> 8).toUInt8, n.toUInt8]

def chunk (kind : String) (data : Bytes) : Bytes :=
  let body := Bytes.ofAscii kind ++ data
  long (UInt32.ofNat data.length) ++ body ++ long (Checksum.crc32 body)

def blockSize : Nat := 65535

def storedBlocks (data : Bytes) : Bytes :=
  if blockSize < data.length then
    block 0 (data.take blockSize) ++ storedBlocks (data.drop blockSize)
  else block 1 data
termination_by data.length
decreasing_by
  rw [List.length_drop]
  unfold blockSize at *
  omega
where
  block (mark : UInt8) (part : Bytes) : Bytes :=
    let low := UInt8.ofNat part.length
    let high := UInt8.ofNat (part.length / 256)
    mark :: low :: high :: ~~~low :: ~~~high :: part

def stored (data : Bytes) : Bytes :=
  [0x78, 0x01] ++ storedBlocks data ++ long (Checksum.adler32 data)

/-- The rows of a raster, each with the mark of no filter in front. -/
def scanLines (r : Raster) : Bytes :=
  r.rows.flatMap fun row => 0 :: row.flatMap fun color => (Color.rgb? color).getD [0, 0, 0]

def encode (r : Raster) : Bytes :=
  [0x89, 0x50, 0x4E, 0x47, 0x0D, 0x0A, 0x1A, 0x0A] ++
    chunk "IHDR" (long (UInt32.ofNat r.width) ++ long (UInt32.ofNat r.height) ++ [8, 2, 0, 0, 0]) ++
    chunk "IDAT" (stored (scanLines r)) ++ chunk "IEND" []

end EscapeRoom.Png
