import EscapeRoom.Bytes

/-!
# The digest SHA-256

A message is padded to blocks of 64 bytes: a byte `80`, zeros, and the length of the message in bits. A
block changes the state of eight words in 64 rounds.
-/

namespace EscapeRoom.Sha256

structure State where
  a : UInt32
  b : UInt32
  c : UInt32
  d : UInt32
  e : UInt32
  f : UInt32
  g : UInt32
  h : UInt32
  deriving Repr, DecidableEq

def initial : State :=
  ⟨0x6a09e667, 0xbb67ae85, 0x3c6ef372, 0xa54ff53a, 0x510e527f, 0x9b05688c, 0x1f83d9ab, 0x5be0cd19⟩

def constants : List UInt32 :=
  [0x428a2f98, 0x71374491, 0xb5c0fbcf, 0xe9b5dba5, 0x3956c25b, 0x59f111f1, 0x923f82a4, 0xab1c5ed5,
    0xd807aa98, 0x12835b01, 0x243185be, 0x550c7dc3, 0x72be5d74, 0x80deb1fe, 0x9bdc06a7, 0xc19bf174,
    0xe49b69c1, 0xefbe4786, 0x0fc19dc6, 0x240ca1cc, 0x2de92c6f, 0x4a7484aa, 0x5cb0a9dc, 0x76f988da,
    0x983e5152, 0xa831c66d, 0xb00327c8, 0xbf597fc7, 0xc6e00bf3, 0xd5a79147, 0x06ca6351, 0x14292967,
    0x27b70a85, 0x2e1b2138, 0x4d2c6dfc, 0x53380d13, 0x650a7354, 0x766a0abb, 0x81c2c92e, 0x92722c85,
    0xa2bfe8a1, 0xa81a664b, 0xc24b8b70, 0xc76c51a3, 0xd192e819, 0xd6990624, 0xf40e3585, 0x106aa070,
    0x19a4c116, 0x1e376c08, 0x2748774c, 0x34b0bcb5, 0x391c0cb3, 0x4ed8aa4a, 0x5b9cca4f, 0x682e6ff3,
    0x748f82ee, 0x78a5636f, 0x84c87814, 0x8cc70208, 0x90befffa, 0xa4506ceb, 0xbef9a3f7, 0xc67178f2]

def rotate (n : UInt32) (x : UInt32) : UInt32 :=
  (x >>> n) ||| (x <<< (32 - n))

def wordsOf : Bytes → List UInt32
  | a :: b :: c :: d :: rest =>
    ((a.toUInt32 <<< 24) ||| (b.toUInt32 <<< 16) ||| (c.toUInt32 <<< 8) ||| d.toUInt32) :: wordsOf rest
  | _ => []

def nextWord (w : Array UInt32) : UInt32 :=
  let before (n : Nat) : UInt32 := w.getD (w.size - n) 0
  let x := before 15
  let y := before 2
  before 16 + (rotate 7 x ^^^ rotate 18 x ^^^ (x >>> 3)) + before 7 +
    (rotate 17 y ^^^ rotate 19 y ^^^ (y >>> 10))

def schedule (block : Bytes) : List UInt32 :=
  ((List.range 48).foldl (fun w _ => w.push (nextWord w)) (wordsOf block).toArray).toList

def round (s : State) (kw : UInt32 × UInt32) : State :=
  let choice := (s.e &&& s.f) ^^^ (~~~s.e &&& s.g)
  let majority := (s.a &&& s.b) ^^^ (s.a &&& s.c) ^^^ (s.b &&& s.c)
  let t := s.h + (rotate 6 s.e ^^^ rotate 11 s.e ^^^ rotate 25 s.e) + choice + kw.1 + kw.2
  let u := (rotate 2 s.a ^^^ rotate 13 s.a ^^^ rotate 22 s.a) + majority
  ⟨t + u, s.a, s.b, s.c, s.d + t, s.e, s.f, s.g⟩

def compress (s : State) (block : Bytes) : State :=
  let r := (constants.zip (schedule block)).foldl round s
  ⟨s.a + r.a, s.b + r.b, s.c + r.c, s.d + r.d, s.e + r.e, s.f + r.f, s.g + r.g, s.h + r.h⟩

def highFirst (count n : Nat) : Bytes :=
  ((List.range count).map fun i => UInt8.ofNat (n >>> (8 * i))).reverse

/-- A message with its padding, of a length that is a multiple of 64. -/
def pad (message : Bytes) : Bytes :=
  message ++ 0x80 :: List.replicate ((119 - message.length % 64) % 64) 0 ++
    highFirst 8 (8 * message.length)

def compressAll (s : State) (bytes : Bytes) : State :=
  if 64 ≤ bytes.length then compressAll (compress s (bytes.take 64)) (bytes.drop 64) else s
termination_by bytes.length
decreasing_by simp only [List.length_drop]; omega

def digest (message : Bytes) : Bytes :=
  let s := compressAll initial (pad message)
  [s.a, s.b, s.c, s.d, s.e, s.f, s.g, s.h].flatMap fun w => highFirst 4 w.toNat

end EscapeRoom.Sha256
