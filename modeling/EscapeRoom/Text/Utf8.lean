import EscapeRoom.Text.Quoted

/-!
# Strict UTF-8

Text files hold strict UTF-8: no overlong forms, no surrogates. A fault names the octets that cannot
be read. A file read line by line is decoded in blocks, and positions then count from the start of
the block that holds the fault, together with the octets carried over from the block before.
-/

namespace EscapeRoom.Text.Utf8

inductive Fault where
  | start
  | continuation
  | truncated
  deriving Repr, DecidableEq

/-- Octets that are no UTF-8: the first of them, where it stands, and how many there are. -/
structure Error where
  octet : UInt8
  position : Nat
  count : Nat
  fault : Fault
  deriving Repr, DecidableEq

def Fault.reason : Fault → String
  | .start => "invalid start byte"
  | .continuation => "invalid continuation byte"
  | .truncated => "unexpected end of data"

def Error.message (e : Error) : String :=
  if e.count ≤ 1 then
    "'utf-8' codec can't decode byte 0x" ++ String.ofList (lowerHex 2 e.octet.toNat) ++
      " in position " ++ toString e.position ++ ": " ++ e.fault.reason
  else
    "'utf-8' codec can't decode bytes in position " ++ toString e.position ++ "-" ++
      toString (e.position + e.count - 1) ++ ": " ++ e.fault.reason

/-- What decoding a run of octets gives: the characters (last first) and, if the octets end inside a
character, what is left of them. -/
inductive Outcome where
  | decoded (chars : List Char) (position : Nat) (rest : List UInt8)
  | failed (error : Error)

def isTail (b : UInt8) : Bool :=
  0x80 ≤ b && b ≤ 0xBF

/-- The second octets that may follow the first octet of a character of three or four octets. -/
def isSecond (first b : UInt8) : Bool :=
  isTail b &&
    (if first = 0xE0 then 0xA0 ≤ b
     else if first = 0xED then b < 0xA0
     else if first = 0xF0 then 0x90 ≤ b
     else if first = 0xF4 then b < 0x90
     else true)

def low6 (b : UInt8) : Nat :=
  b.toNat % 64

def decodeFrom (position : Nat) (chars : List Char) : List UInt8 → Outcome
  | [] => .decoded chars position []
  | a :: r =>
    if a < 0x80 then decodeFrom (position + 1) (Char.ofNat a.toNat :: chars) r
    else if a < 0xC2 || 0xF4 < a then .failed ⟨a, position, 1, .start⟩
    else match r with
      | [] => .decoded chars position [a]
      | b :: r =>
        if a < 0xE0 then
          if isTail b then
            decodeFrom (position + 2) (Char.ofNat ((a.toNat - 0xC0) * 64 + low6 b) :: chars) r
          else .failed ⟨a, position, 1, .continuation⟩
        else if !isSecond a b then
          if a = 0xED && isTail b && r.isEmpty then .decoded chars position [a, b]
          else .failed ⟨a, position, 1, .continuation⟩
        else match r with
          | [] => .decoded chars position [a, b]
          | c :: r =>
            if !isTail c then .failed ⟨a, position, 2, .continuation⟩
            else if a < 0xF0 then
              decodeFrom (position + 3)
                (Char.ofNat (((a.toNat - 0xE0) * 64 + low6 b) * 64 + low6 c) :: chars) r
            else match r with
              | [] => .decoded chars position [a, b, c]
              | d :: r =>
                if !isTail d then .failed ⟨a, position, 3, .continuation⟩
                else decodeFrom (position + 4)
                  (Char.ofNat ((((a.toNat - 0xF0) * 64 + low6 b) * 64 + low6 c) * 64 + low6 d) ::
                    chars) r

def cutShort (position : Nat) : List UInt8 → Option Error
  | [] => none
  | [a, b] =>
    if a = 0xED && !isSecond a b then some ⟨a, position, 1, .continuation⟩
    else some ⟨a, position, 2, .truncated⟩
  | a :: r => some ⟨a, position, r.length + 1, .truncated⟩

def decode (octets : List UInt8) : Except Error String :=
  match decodeFrom 0 [] octets with
  | .failed e => .error e
  | .decoded chars position rest =>
    match cutShort position rest with
    | some e => .error e
    | none => .ok (String.ofList chars.reverse)

/-- The number of octets that are read at a time when a file is read line by line. -/
def blockSize : Nat := 8192

def decodeBlocksFrom (chars : List Char) (carried : List UInt8) (octets : List UInt8) :
    Except Error String :=
  match octets with
  | [] =>
    match cutShort 0 carried with
    | some e => .error e
    | none => .ok (String.ofList chars.reverse)
  | a :: r =>
    match decodeFrom 0 chars (carried ++ (a :: r).take blockSize) with
    | .failed e => .error e
    | .decoded chars _ rest => decodeBlocksFrom chars rest (r.drop (blockSize - 1))
termination_by octets.length
decreasing_by simp only [List.length_drop, List.length_cons]; omega

def decodeBlocks (octets : List UInt8) : Except Error String :=
  decodeBlocksFrom [] [] octets

def encode (s : String) : List UInt8 :=
  s.toUTF8.toList

end EscapeRoom.Text.Utf8
