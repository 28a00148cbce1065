import EscapeRoom.Fields
import EscapeRoom.Tileset.Basic

/-!
# Levels

A level is a set of rooms of one size, with the flags, variables, items, messages and scripts that its
objects use. Rooms have spawn points, exits at their edges, objects, and a map of characters.
-/

namespace EscapeRoom

structure Script where
  name : String
  lines : List (Nat × String)
  deriving Repr, DecidableEq, Inhabited

inductive ScriptKind where
  | cond
  | act
  deriving Repr, DecidableEq

def ScriptKind.keyword : ScriptKind → String
  | .cond => "COND"
  | .act => "ACT"

structure Spawn where
  x : Int
  y : Int
  line : Nat
  deriving Repr, DecidableEq, Inhabited

structure Exit where
  edge : String
  room : String
  spawn : String
  line : Nat
  deriving Repr, DecidableEq, Inhabited

def verbNames : List String :=
  ["LOOK", "TAKE", "USE", "TALK", "OPERATE"]

def verbBit? (name : String) : Option Nat :=
  verbNames.findIdx? (· == name)

def objectTypes : Table String Nat :=
  [("SIGN", 1), ("PICKUP", 2), ("LOCKER_KEYPAD", 3), ("BREAKER_PANEL", 4), ("HATCH_PANEL", 5),
   ("EXIT_TRIGGER", 6), ("NPC_INTERCOM", 7)]

def exitEdges : Table String Nat :=
  [("L", 0), ("R", 1), ("U", 2), ("D", 3)]

/-- An object of a room. A script that is not named does nothing. -/
structure LevelObject where
  name : String
  x : Int
  y : Int
  typeName : String
  verbs : Nat
  line : Nat
  props : Fields := []
  cond : String := "ALWAYS"
  look : String := ""
  take : String := ""
  use : String := ""
  talk : String := ""
  operate : String := ""
  alt0 : String := ""
  alt1 : String := ""
  deriving Repr, DecidableEq, Inhabited

structure Room where
  id : String
  name : String
  line : Nat
  spawns : Table String Spawn := []
  exits : List Exit := []
  objects : List LevelObject := []
  map : List (Nat × String) := []
  deriving Repr, DecidableEq, Inhabited

structure Level where
  name : String
  width : Int
  height : Int
  startRoom : String
  startSpawn : String
  line : Nat
  tiles : Table String Int := []
  stamps : Table String Stamp := []
  flags : List String := []
  vars : List String := []
  items : List String := []
  messages : Table String String := []
  conds : Table String Script := []
  acts : Table String Script := []
  rooms : Table String Room := []
  deriving Repr, DecidableEq, Inhabited

end EscapeRoom
