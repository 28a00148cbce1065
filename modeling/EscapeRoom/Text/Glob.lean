import EscapeRoom.Text.Cut

/-!
# Name patterns

In a name pattern `*` stands for any characters, `?` for one, and brackets for one of the characters in
them, in which a hyphen makes a range and `!` at the start takes all others. Brackets that are not closed
stand for themselves. Ranges that run backwards hold nothing.
-/

namespace EscapeRoom.Glob

/-- The characters in brackets: single ones and ranges. -/
structure CharSet where
  negated : Bool
  singles : List Char
  ranges : List (Char × Char)
  deriving Repr, DecidableEq

def CharSet.has (s : CharSet) (c : Char) : Bool :=
  (s.singles.contains c || s.ranges.any fun (a, b) => a ≤ c && c ≤ b) != s.negated

inductive Item where
  | any
  | one
  | char (c : Char)
  | set (s : CharSet)
  | nothing
  deriving Repr, DecidableEq

/-- The text in brackets cut at the hyphens that make ranges. A hyphen makes one if there is a character
before it that is not the end of a range. -/
def chunks (negated : Bool) (cs : List Char) : List (List Char) :=
  let start := if negated then 2 else 1
  go cs.length start cs
where
  /-- The text up to a hyphen that is at least `skip` characters away, and what follows. -/
  go (fuel skip : Nat) (cs : List Char) : List (List Char) :=
    match fuel with
    | 0 => [cs]
    | fuel + 1 =>
      let ahead := cs.drop skip
      match ahead.dropWhile (· != '-') with
      | [] => if cs.isEmpty then [] else [cs]
      | _ :: rest => (cs.take skip ++ ahead.takeWhile (· != '-')) :: go fuel 2 rest

def closeChunks (chunks : List (List Char)) (endsInHyphen : Bool) : List (List Char) :=
  if endsInHyphen then
    match chunks.reverse with
    | last :: before => ((last ++ ['-']) :: before).reverse
    | [] => [['-']]
  else chunks

def joinBackward : List (List Char) → List (List Char)
  | [] => []
  | chunk :: rest =>
    match joinBackward rest with
    | next :: later =>
      match chunk.getLast?, next.head? with
      | some a, some b => if b < a then (chunk.dropLast ++ next.drop 1) :: later else chunk :: next :: later
      | _, _ => chunk :: next :: later
    | [] => [chunk]

def rangesOf : List (List Char) → List (Char × Char)
  | a :: b :: rest =>
    match a.getLast?, b.head? with
    | some x, some y => (x, y) :: rangesOf (b :: rest)
    | _, _ => rangesOf (b :: rest)
  | _ => []

def bracketItem (inside : List Char) : Item :=
  let parts :=
    if inside.contains '-' then
      let parts := chunks (inside.head? = some '!') inside
      joinBackward (closeChunks parts (endsInHyphen parts inside))
    else [inside]
  match parts with
  | [] | [[]] => .nothing
  | [['!']] => .one
  | ('!' :: first) :: rest =>
    .set { negated := true, singles := first ++ rest.flatten, ranges := rangesOf (first :: rest) }
  | parts => .set { negated := false, singles := parts.flatten, ranges := rangesOf parts }
where
  endsInHyphen (parts : List (List Char)) (inside : List Char) : Bool :=
    parts.flatten.length + parts.length = inside.length

/-- How many characters after a bracket cannot close it: an exclamation mark, and what comes first. -/
def cannotClose : List Char → Nat
  | '!' :: ']' :: _ => 2
  | '!' :: _ => 1
  | ']' :: _ => 1
  | _ => 0

/-- What stands between a bracket and the one that closes it, and what follows. -/
def closeBracket (cs : List Char) : Option (List Char × List Char) :=
  let n := cannotClose cs
  match (cs.drop n).dropWhile (· != ']') with
  | _ :: after => some (cs.take n ++ (cs.drop n).takeWhile (· != ']'), after)
  | [] => none

theorem closeBracket_length {cs inside after : List Char}
    (h : closeBracket cs = some (inside, after)) : after.length < cs.length := by
  unfold closeBracket at h
  dsimp only at h
  split at h
  · rename_i rest heq
    simp only [Option.some.injEq, Prod.mk.injEq] at h
    obtain ⟨-, rfl⟩ := h
    have hd := (List.dropWhile_suffix (· != ']') (l := cs.drop (cannotClose cs))).length_le
    rw [heq] at hd
    simp only [List.length_cons, List.length_drop] at hd
    omega
  · simp at h

def items (cs : List Char) : List Item :=
  match cs with
  | [] => []
  | '*' :: rest => .any :: items rest
  | '?' :: rest => .one :: items rest
  | '[' :: rest =>
    match _h : closeBracket rest with
    | some (inside, after) => bracketItem inside :: items after
    | none => .char '[' :: items rest
  | c :: rest => .char c :: items rest
termination_by cs.length
decreasing_by
  all_goals simp_wf
  have := closeBracket_length _h
  omega

def Item.takes (i : Item) (c : Char) : Bool :=
  match i with
  | .any => true
  | .one => true
  | .char d => c == d
  | .set s => s.has c
  | .nothing => false

def matchItems : List Item → List Char → Bool
  | [], cs => cs.isEmpty
  | .any :: rest, [] => matchItems rest []
  | .any :: rest, c :: cs => matchItems rest (c :: cs) || matchItems (.any :: rest) cs
  | _ :: _, [] => false
  | i :: rest, c :: cs => i.takes c && matchItems rest cs
termination_by items cs => items.length + cs.length

def isPattern (s : String) : Bool :=
  s.toList.any fun c => c = '*' || c = '?' || c = '['

def matchName (pattern name : String) : Bool :=
  matchItems (items pattern.toList) name.toList

end EscapeRoom.Glob
