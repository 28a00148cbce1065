import EscapeRoom.Text.Cut

/-!
# Lines

A file's lines end at a line feed, a carriage return, or the two together. The wider rule of
`pieces` also ends a line at the other separators of Unicode.
-/

namespace EscapeRoom.Text

def normalizeEnds : List Char → List Char
  | [] => []
  | '\r' :: '\n' :: rest => '\n' :: normalizeEnds rest
  | c :: rest => (if c = '\r' then '\n' else c) :: normalizeEnds rest

/-- The lines of a text without their ends; a last line that is empty does not count. -/
def linesOf (cs : List Char) : List (List Char) :=
  let parts := partsOf '\n' cs
  if parts.getLast? = some [] then parts.dropLast else parts

def lines (s : String) : List String :=
  (linesOf s.toList).map String.ofList

def endsPiece (c : Char) : Bool :=
  inRanges [(0x0A, 0x0D), (0x1C, 0x1E), (0x85, 0x85), (0x2028, 0x2029)] c.toNat

/-- The pieces of the rest of a text, each with the end that closed it. -/
def piecesFrom (piece : List Char) : List Char → List (List Char × List Char)
  | [] => if piece.isEmpty then [] else [(piece.reverse, [])]
  | '\r' :: '\n' :: rest => (piece.reverse, ['\r', '\n']) :: piecesFrom [] rest
  | c :: rest =>
    if endsPiece c then (piece.reverse, [c]) :: piecesFrom [] rest
    else piecesFrom (c :: piece) rest

def pieces (s : String) : List String :=
  (piecesFrom [] s.toList).map fun p => String.ofList p.1

def piecesWithEnds (s : String) : List (String × String) :=
  (piecesFrom [] s.toList).map fun p => (String.ofList p.1, String.ofList p.2)

end EscapeRoom.Text
