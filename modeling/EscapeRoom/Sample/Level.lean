import EscapeRoom.Number.Format
import EscapeRoom.Text.Cut

/-!
# Sample levels

Level texts with any number of rooms. Every room has two spawns, two exits that lead to the next room, an
object of each type and a walled map with a ledge half way up.
-/

namespace EscapeRoom.Sample

def numbered (head start : String) (count : Nat) : List String :=
  head :: (List.range count).map (fun i => "  " ++ start ++ toString i) ++ ["END", ""]

def levelTileLines : List String :=
  ["TILES", "  . 0", "  # 1", "  = 2", "  H 3", "  _ 4", "  T 5", "END", ""]

def messageLines : List String :=
  "MESSAGES" ::
    (List.range 12).map (fun i =>
      "  MSG_" ++ toString i ++ " = \"Message number " ++ toString i ++ " for benchmarking.\"") ++
    ["END", ""]

def scriptLines : List String :=
  ["COND ALWAYS", "  TRUE", "END", "",
    "COND HASKEY", "  HAS ITEM_0", "  FLAGSET FLAG_0", "  FLAGCLR FLAG_1", "  VAREQ VAR_0 5", "END", "",
    "ACT LOOK0", "  MSG MSG_0", "  SFX 1", "END", "",
    "ACT TAKE0", "  GIVE ITEM_0", "  SETFLAG FLAG_0", "  SETVAR VAR_0 7", "END", "",
    "ACT USE0", "  TAKE ITEM_1", "  CLRFLAG FLAG_2", "END", "",
    "ACT GOTO1", "  TRANSITION R0 S0", "END", ""]

def roomObjectLines : List String :=
  ["OBJECTS",
    "  O1 at 3,2 type=SIGN verbs=LOOK look=LOOK0 cond=ALWAYS",
    "  O2 at 4,3 type=PICKUP verbs=TAKE item=ITEM_0 take=TAKE0 cond=HASKEY",
    "  O3 at 5,4 type=LOCKER_KEYPAD verbs=LOOK|OPERATE code=729 ok=LOOK0 bad=USE0 cond=ALWAYS",
    "  O4 at 6,5 type=BREAKER_PANEL verbs=OPERATE var=VAR_0 expect=0b101 ok=LOOK0 bad=USE0 cond=ALWAYS",
    "  O5 at 7,6 type=HATCH_PANEL verbs=LOOK|USE fuse=LOOK0 badge=TAKE0 reject=USE0 cond=ALWAYS",
    "  O6 at 8,7 type=NPC_INTERCOM verbs=TALK talk=LOOK0 cond=ALWAYS",
    "  O7 at 9,8 type=EXIT_TRIGGER verbs=OPERATE operate=GOTO1 p0=3 p1=4 cond=ALWAYS",
    "END"]

structure LevelOptions where
  width : Int := 20
  height : Int := 12
  name : String := "BENCH LEVEL"
  /-- The tileset file; none is named if the text is empty. -/
  tileset : String := ""
  withTiles : Bool := false

def mapRow (width height y : Nat) : String :=
  String.ofList ((List.range width).map fun x =>
    if y = 0 || y + 1 = height || x = 0 || x + 1 = width then '#'
    else if y = height / 2 then '=' else '.')

def roomLines (o : LevelOptions) (rooms i : Nat) : List String :=
  let room := toString i
  let next := toString ((i + 1) % rooms)
  ["ROOM R" ++ room ++ " name=\"Room" ++ room ++ "\"",
    "SPAWNS", "  S0 2,7", "  S1 5,5", "END",
    "EXITS", "  R R" ++ next ++ ":S0", "  L R" ++ next ++ ":S1", "END"] ++
  roomObjectLines ++
  "MAP" :: (List.range o.height.toNat).map (mapRow o.width.toNat o.height.toNat) ++
  ["END", "ENDROOM", ""]

def levelLines (rooms : Nat) (o : LevelOptions) : List String :=
  let tileset := if o.tileset.isEmpty then "" else " tset=" ++ o.tileset
  ["LEVEL name=\"" ++ o.name ++ "\" w=" ++ toString o.width ++ " h=" ++ toString o.height ++
    " start=R0:S0" ++ tileset, ""] ++
  (if o.withTiles || o.tileset.isEmpty then levelTileLines else []) ++
  numbered "FLAGS" "FLAG_" 8 ++ numbered "VARS" "VAR_" 4 ++ numbered "ITEMS" "ITEM_" 6 ++
  messageLines ++ scriptLines ++
  (List.range rooms).flatMap (roomLines o rooms)

def levelText (rooms : Nat) (o : LevelOptions) : String :=
  Text.join "\n" (levelLines rooms o) ++ "\n"

end EscapeRoom.Sample
