import EscapeRoom.Text.Cut

/-!
# Sample texts with faults

Tilesets and levels in which something is wrong: whole collections of faults in one text, and small
texts with one fault each.
-/

namespace EscapeRoom.Sample

def linesText (lines : List String) : String :=
  String.join (lines.map (· ++ "\n"))

def plainHeader : String :=
  "TSET tileSize=2x2 bgColor=0 mc1Color=0 mc2Color=0"

def plainTiles : List String :=
  ["TILES", "  X chars=0,1,2,3 color=0", "END"]

def underHeader (header : String) : String :=
  linesText (header :: plainTiles)

def afterHeader (lines : List String) : String :=
  linesText (plainHeader :: lines)

def faultyTileLine (i : Nat) : String :=
  let n := toString i
  match i % 6 with
  | 0 => "  B" ++ n ++ " id=bad chars=0,1,2,3 color=red"
  | 1 => "  B" ++ n ++ " chars=0,1,2 color=red"
  | 2 => "  B" ++ n ++ " chars=0,1,2,3 color=bad"
  | 3 => "  B" ++ n ++ " chars=300,1,2,3 colors=20,1,2,3"
  | 4 => "  B" ++ n ++ " chars=0,1,2,3"
  | _ => "  OK" ++ n ++ " chars=0,1,2,3 color=red flags=SOLID"

def faultyTilesetEnd : List String :=
  ["  OK5 chars=0,1,2,3 color=red", "  NOCHARS color=red", "  BADCOL chars=0,1,2,3 colors=bad,1,2,3",
    "  EMPF chars=0,1,2,3 color=0 flags=SOLID||FLOOR", "  DUPID id=250 chars=0,1,2,3 color=0",
    "  DUPID2 id=250 chars=0,1,2,3 color=0", "END",
    "TILE id=252 name=LEGACY chars=0,1,2,3 color=blue flags=FLOOR",
    "TILE id=400 chars=0,1,2,3 color=blue", "TILE name=NOID chars=0,1,2,3 color=blue", "OBJECTS",
    "  OBAD1 size=foo tiles=OK5", "  OBAD2 size=2x2 tiles=OK5", "  OBAD3 char=x size=1x1 tiles=OK5",
    "  OBAD4 tiles=OK5", "  OBAD5 size=1x1 tiles=NOSUCH", "  OBAD6 size=axb tiles=OK5",
    "  OGOOD size=1x1 tiles=OK5", "END", "CHARMAP", "  AB OK5", "  p TILE_OK5", "  q UNKNOWN",
    "  y OGOOD", "  z OGOOD", "  y OK5", "END"]

def faultyTileset (tiles : Nat) : String :=
  linesText (["TSET name=\"bad\" tileSize=2x2 count=bad bgColor=99 mc1Color=foo mc2Color=-1 charset=missing.bin",
    "TILES"] ++ (List.range tiles).map faultyTileLine ++ faultyTilesetEnd)

def faultyLevelStart : List String :=
  ["garbage before level", "LEVEL name=\"BAD\" w=10 h=6 start=R0:S0", "TILES", "  . 0", "  # 1",
    "  @@ 2", "  x NOPE", "END", "FLAGS", "  F0", "  F0", "END", "VARS", "  V0", "  V0", "END", "ITEMS",
    "  I0", "  I0", "END", "MESSAGES", "  M0 = \"hello\"", "  M0 = \"dup\"", "  BAD LINE", "END",
    "COND", "END", "COND C0", "  FLAGSET F0", "END", "COND C0", "  TRUE", "END", "COND CBAD",
    "  WHAT F0", "  FLAGSET", "  HAS", "  VAREQ V0", "  VAREQ V0 bad", "  HAS NOPE", "  end", "END",
    "ACT", "END", "ACT A0", "  MSG M0", "END", "ACT A0", "  MSG M0", "END", "ACT ABAD", "  WHAT",
    "  MSG", "  SETFLAG", "  GIVE", "  SETVAR V0", "  SETVAR V0 bad", "  SFX", "  SFX bad",
    "  TRANSITION", "  TRANSITION R0 NOPE", "  MSG NOPE", "  end", "END", "ENDROOM", "SPAWNS", "END",
    "ROOM", "ROOM R0 name=\"dup\"", "SPAWNS", "  S0 0,0", "END", "MAP", "..........", "..........",
    "..........", "..........", "..........", "..........", "END", "ENDROOM"]

def faultyRoom (i : Nat) : List String :=
  let n := toString i
  ["ROOM R" ++ n ++ " name=\"r" ++ n ++ "\"",
    "SPAWNS", "  S0 1,1", "  S0 2,2", "  S1", "  S2 bad", "END", "EXITS", "  R R0:S0", "  Q R0:S0",
    "  R NOPE:S0", "  R R0:NOPE", "  R badformat", "  L", "END", "OBJECTS",
    "  O1 at 1,1 type=SIGN verbs=LOOK look=A0", "  O1 at 1,1 type=SIGN verbs=LOOK",
    "  O2 at bad type=SIGN verbs=LOOK", "  O3 at 1,1 type=SIGN", "  O4 at 1,1 type=UNKNOWN verbs=LOOK",
    "  O5 at 1,1 type=SIGN verbs=BOGUS",
    "  O6 at 1,1 type=PICKUP verbs=TAKE item=NOPE take=NOPE cond=NOPE p0=bad",
    "  O7 at 1,1 type=LOCKER_KEYPAD verbs=OPERATE code=9999",
    "  O8 at 1,1 type=LOCKER_KEYPAD verbs=OPERATE code=bad",
    "  O9 at 1,1 type=BREAKER_PANEL verbs=OPERATE var=NOPE expect=99",
    "  OA at 1,1 type=BREAKER_PANEL verbs=OPERATE expect=bad", "  OB at a,b type=SIGN verbs=LOOK",
    "  OC", "END", "MAP", "#........#", "#........#", "#????????#", "#........#", "#........#",
    "#........#", "END", "ENDROOM"]

def faultyLevelEnd : List String :=
  ["unexpected trailing line", "ROOM RX name=\"short\"", "SPAWNS", "  S0 1,1", "END", "MAP", "#####",
    "END", "ENDROOM"]

def faultyLevel (rooms : Nat) : String :=
  linesText (faultyLevelStart ++ (List.range rooms).flatMap faultyRoom ++ faultyLevelEnd)

end EscapeRoom.Sample
