/-!
# Blank characters

Blanks are the separators of Unicode and the control characters that end lines or records. Texts are
trimmed and cut into words at blanks.
-/

namespace EscapeRoom.Text

def inRanges (ranges : List (Nat × Nat)) (n : Nat) : Bool :=
  ranges.any fun r => r.1 ≤ n && n ≤ r.2

def blankRanges : List (Nat × Nat) :=
  [(0x09, 0x0D), (0x1C, 0x20), (0x85, 0x85), (0xA0, 0xA0), (0x1680, 0x1680), (0x2000, 0x200A),
   (0x2028, 0x2029), (0x202F, 0x202F), (0x205F, 0x205F), (0x3000, 0x3000)]

def isBlank (c : Char) : Bool :=
  inRanges blankRanges c.toNat

def trimStart (cs : List Char) : List Char :=
  cs.dropWhile isBlank

def trimEnd (cs : List Char) : List Char :=
  (cs.reverse.dropWhile isBlank).reverse

def trimChars (cs : List Char) : List Char :=
  trimEnd (trimStart cs)

/-- The words of the rest of a text, the first of them begun with `word` (in reverse). -/
def wordsFrom (word : List Char) : List Char → List (List Char)
  | [] => if word.isEmpty then [] else [word.reverse]
  | c :: rest =>
    if isBlank c then
      if word.isEmpty then wordsFrom [] rest else word.reverse :: wordsFrom [] rest
    else wordsFrom (c :: word) rest

def wordsOf (cs : List Char) : List (List Char) :=
  wordsFrom [] cs

def trim (s : String) : String :=
  String.ofList (trimChars s.toList)

def trimRight (s : String) : String :=
  String.ofList (trimEnd s.toList)

def words (s : String) : List String :=
  (wordsOf s.toList).map String.ofList

def codePoint (digits : List Char) : Nat :=
  digits.foldl (fun n c => 16 * n + if c.isDigit then c.toNat - 48 else c.toNat - 55) 0

/-- The ranges and single code points of a table such as `AA B5 C0-D6`. -/
def listedRanges (table : String) : List (Nat × Nat) :=
  (wordsOf table.toList).map fun entry =>
    match entry.dropWhile (· ≠ '-') with
    | _ :: last => (codePoint (entry.takeWhile (· ≠ '-')), codePoint last)
    | [] => (codePoint entry, codePoint entry)

end EscapeRoom.Text
