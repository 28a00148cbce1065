import EscapeRoom.Game.Player
import EscapeRoom.Game.Scripts

/-!
# Starting and playing

The game is set up once and then runs tick by tick; in every tick it reads the joystick and moves the
player.
-/

namespace EscapeRoom.Game

/-- A reading of the joystick: two axes and the button. -/
structure Joystick where
  x : Int := 0
  y : Int := 0
  fire : Bool := false
  deriving Repr, DecidableEq

def Joystick.bits (j : Joystick) : UInt8 :=
  (if j.x < 0 then 1 else if 0 < j.x then 2 else 0) +
    (if j.y < 0 then 4 else if 0 < j.y then 8 else 0) + (if j.fire then 16 else 0)

def readJoystick (g : Game) (j : Joystick) : Game :=
  { g with
    buttons :=
      { down := j.bits, pressed := j.bits &&& ~~~g.buttons.previous, previous := j.bits } }

def initButtons (g : Game) : Game :=
  { g with buttons := {} }

def initPuzzle (g : Game) : Game :=
  { g with puzzle := Puzzle.start g.level }

def initText (g : Game) : Game :=
  let window : Window := { top := 24, width := 40, height := 1 }
  ({ g with text := none, textWindow := window }.note (.windowOpened screenAddress window)).note
    (.windowCleared window)

def init (g : Game) : Game :=
  let g := (g.note .interruptsOff).initButtons
  let g := { g with inventory := .empty }.initPuzzle
  let g := g.initText.checkTiles.initScreen
  (g.loadRoom g.level.startRoom g.level.startSpawn).drawRoom.initPlayer

def tick (g : Game) (j : Joystick) : Game :=
  (g.readJoystick j).updatePlayer

end EscapeRoom.Game
