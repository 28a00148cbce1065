import EscapeRoom.Game.Room

/-!
# Running scripts

Script code is a sequence of instructions of three bytes each. Offsets are words, so that code that has
no end in its level comes back to where it began after 65536 instructions; it would then run forever.
-/

namespace EscapeRoom.Game

/-- The number of different places at which an instruction can begin. -/
def codePlaces : Nat := 65536

/-- Whether one test holds; none if the operation is no test. -/
def test (g : Game) (op a b : UInt8) : Option Bool :=
  match op with
  | 1 => some true
  | 2 => some (g.puzzle.flag a)
  | 3 => some (!g.puzzle.flag a)
  | 4 => some (g.inventory.has a)
  | 5 => some (g.puzzle.var a == b)
  | _ => none

/-- Whether all tests from a place on hold. None stands for code without end. -/
def conditionsFrom (g : Game) : Nat → UInt16 → Option Bool
  | 0, _ => none
  | fuel + 1, base =>
    let l := g.level
    let op := l.byte base
    if op = 0 then some true
    else if g.test op (l.byte (base + 1)) (l.byte (base + 2)) = some true then
      conditionsFrom g fuel (base + 3)
    else some false

/-- Whether the conditions at an offset of their stream hold. Offset zero stands for no condition. -/
def conditionsPass (g : Game) (offset : UInt16) : Option Bool :=
  if offset = 0 then some true
  else g.conditionsFrom codePlaces (g.level.condStream + offset)

/-- Shows a text, or none, in the text window. -/
def showText (g : Game) (text : Option Bytes) : Game :=
  let g := { g with text }.note (.windowCleared g.textWindow)
  if text.isSome then g.note (.textDrawn g.textWindow 0 0 1) else g

/-- Takes one step; none if the operation is no step. -/
def act (g : Game) (op a b : UInt8) : Option Game :=
  match op with
  | 1 => some (g.showText (g.level.message a))
  | 2 => some { g with puzzle := g.puzzle.setFlag a }
  | 3 => some { g with puzzle := g.puzzle.clearFlag a }
  | 4 => some { g with inventory := g.inventory.add a }
  | 5 => some { g with inventory := g.inventory.remove a }
  | 6 => some { g with puzzle := g.puzzle.setVar a b }
  | 7 => some g
  | 8 => some (g.loadRoom a b)
  | _ => none

/-- Takes all steps from a place on. None stands for code without end. -/
def actionsFrom : Nat → UInt16 → Game → Option Game
  | 0, _, _ => none
  | fuel + 1, base, g =>
    let l := g.level
    match g.act (l.byte base) (l.byte (base + 1)) (l.byte (base + 2)) with
    | some next => actionsFrom fuel (base + 3) next
    | none => some g

/-- Runs the actions at an offset of their stream. Offset zero stands for no action. -/
def runActions (g : Game) (offset : UInt16) : Option Game :=
  if offset = 0 then some g
  else actionsFrom codePlaces (g.level.actStream + offset) g

end EscapeRoom.Game
