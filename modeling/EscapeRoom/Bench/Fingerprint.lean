import EscapeRoom.Bench.Value
import EscapeRoom.Digest.Sha256
import EscapeRoom.Text.Utf8

/-!
# Fingerprints of values

The fingerprint of a value is the digest of a stream of bytes that tells the value apart from others. The
order in which a set or a dictionary was filled does not show in it, and neither do the kind of a list or
the sign of a zero.
-/

namespace EscapeRoom.Bench

/-- The text of a number; a zero has no sign. -/
def numberText (x : Number.Double) : String :=
  if x.isZero then "0.0" else x.text

def doubleBytes (x : Number.Double) : Bytes :=
  let n := x.bits
  (List.range 8).map fun i => UInt8.ofNat (n >>> (8 * i))

def CellKind.code : CellKind → String
  | .octet => "|u1"
  | .double => "<f8"

def CellKind.bytes (k : CellKind) (x : Number.Double) : Bytes :=
  match k with
  | .octet => [byteOf ((x.truncate?).getD 0)]
  | .double => doubleBytes x

def printOf (stream : Bytes) : String :=
  (Sha256.digest stream).toHex

/-- The streams of entries in the order of the types and the texts of their keys. -/
def inKeyOrder (entries : List ((String × String) × Bytes)) : Bytes :=
  (entries.mergeSort fun a b =>
    decide (a.1.1 < b.1.1) || (a.1.1 == b.1.1 && decide (a.1.2 ≤ b.1.2))).flatMap (·.2)

mutual

def stream : Value → Bytes
  | .real x => Text.Utf8.encode (numberText x)
  | .text s => Text.Utf8.encode ("s" ++ s)
  | .octets bytes _ => Bytes.ofAscii "s" ++ bytes
  | .list items | .tuple items =>
    Bytes.ofAscii ("L" ++ toString items.length) ++ streams items
  | .set items _ =>
    Bytes.ofAscii ("S" ++ toString items.length ++
      String.join ((prints items).mergeSort fun a b => decide (a ≤ b)))
  | .dict entries =>
    Bytes.ofAscii ("D" ++ toString entries.length) ++ inKeyOrder (entryStreams entries)
  | .complex re im => Bytes.ofAscii ("c" ++ numberText re ++ numberText im)
  | .array kind shape cells =>
    Bytes.ofAscii ("A" ++ kind.code ++ Value.tupleText (shape.map toString)) ++ cells.flatMap kind.bytes
  | .pair a b => Bytes.ofAscii "OPair" ++ stream a ++ stream b
  | v => Text.Utf8.encode v.shown

def streams : List Value → Bytes
  | [] => []
  | v :: rest => stream v ++ streams rest

def prints : List Value → List String
  | [] => []
  | v :: rest => printOf (stream v) :: prints rest

def entryStreams : List (Value × Value) → List ((String × String) × Bytes)
  | [] => []
  | (k, v) :: rest => ((k.typeName, k.shown), stream k ++ stream v) :: entryStreams rest

end

def fingerprint (v : Value) : String :=
  printOf (stream v)

end EscapeRoom.Bench
