import EscapeRoom.Json.Value
import EscapeRoom.Level.Blob
import EscapeRoom.Text.Identifier

/-!
# Texts about a level

With the blob go a header with the ids of flags, variables, items and messages for the game's sources,
the declarations of the blob, a map of symbols and a summary for inspection.
-/

namespace EscapeRoom.Level

def fileBase (name : String) : String :=
  Text.slug "level" name

def symbol (name : String) : String :=
  let ident := Text.identifier name
  match ident.toList with
  | [] => "lvl_"
  | c :: _ => if Text.isAsciiDigit c then "lvl_" ++ ident else ident

def enumText (name : String) (entries : List String) : String :=
  "typedef enum \x7b\n" ++
    String.join (entries.zipIdx.map fun (e, i) => "  " ++ e ++ " = " ++ toString i ++ ",\n") ++
    "  " ++ name ++ "__COUNT = " ++ toString entries.length ++ "\n\x7d " ++ name ++ ";\n\n"

def idsHeader (level : Level) : String :=
  "// Auto-generated by levelc.py\n#pragma once\n\n" ++ enumText "FlagId" level.flags ++
    enumText "VarId" level.vars ++ enumText "ItemId" level.items ++
    enumText "MsgId" level.messages.keys ++ "typedef enum \x7b\n" ++
    String.join (objectTypes.map fun (name, code) =>
      "  OBJ_" ++ name ++ " = " ++ toString code ++ ",\n") ++
    "\x7d ObjType;\n\n"

def declaration (array : String) : String :=
  "#pragma once\nextern unsigned char " ++ array ++ "[];\nextern unsigned long " ++ array ++
    "_size;\n"

def sizeDefinition (array : String) : String :=
  "unsigned long " ++ array ++ "_size = (unsigned long)sizeof(" ++ array ++ ");\n"

def embedding (file array : String) : String :=
  "unsigned char " ++ array ++ "[] = \x7b\n#embed \"" ++ file ++ "\"\n\x7d;\n" ++
    sizeDefinition array

/-- The rows of a list, each of the given length except perhaps the last. -/
def rowsOf {α : Type} (length : Nat) : List α → List (List α)
  | [] => []
  | a :: rest => (a :: rest.take (length - 1)) :: rowsOf length (rest.drop (length - 1))
termination_by l => l.length
decreasing_by simp only [List.length_drop, List.length_cons]; omega

def arrayDefinition (blob : Bytes) (array : String) : String :=
  "unsigned char " ++ array ++ "[] = \x7b\n" ++
    String.join ((rowsOf 12 blob).map fun row =>
      "  " ++ Text.join "," (row.map fun b => "0x" ++ Number.hexUpper 2 b.toNat) ++ ",\n") ++
    "\x7d;\n" ++ sizeDefinition array

def blobSource (header file array : String) : String :=
  "// Auto-generated by levelc.py\n#include <stdint.h>\n#include \"levels/" ++ header ++ "\"\n\n" ++
    embedding file array

def verbsText (mask : Nat) : String :=
  match verbNames.zipIdx.filter fun (_, bit) => mask.testBit bit with
  | [] => "NONE"
  | verbs => Text.join "|" (verbs.map (·.1))

def recordText (r : ObjectRecord) (i : Nat) : String :=
  let o := r.object
  let ref (key name : String) (offset : Nat) := key ++ "=" ++ name ++ "@" ++ toString offset
  "    OBJ[" ++ toString i ++ "] name=" ++ o.name ++ " pos=" ++ toString o.x ++ "," ++ toString o.y ++
    " type=" ++ o.typeName ++ "(" ++ toString r.typeCode ++ ") verbs=" ++ verbsText o.verbs ++
    " p0=" ++ toString r.p0.toNat ++ " p1=" ++ toString r.p1.toNat ++ "\n      " ++
    ref "cond" o.cond r.cond ++ "\n      " ++
    Text.join " " [ref "look" o.look r.look, ref "take" o.take r.take, ref "use" o.use r.use,
      ref "talk" o.talk r.talk, ref "operate" o.operate r.operate, ref "alt0" o.alt0 r.alt0,
      ref "alt1" o.alt1 r.alt1] ++ "\n"

def roomText (l : RoomLayout) (level : Level) (i : Nat) : String :=
  let room := l.room
  "ROOM[" ++ toString i ++ "] id=" ++ room.id ++ " name=\"" ++ room.name ++ "\"\n" ++
    "  MAP ofs=" ++ toString l.map ++ " size=" ++ toString (level.width * level.height) ++ "\n" ++
    "  SPAWNS ofs=" ++ toString l.spawns ++ " count=" ++ toString room.spawns.length ++ " keys=" ++
    Text.join "," room.spawns.keys ++ "\n" ++
    "  EXITS ofs=" ++ toString l.exits ++ " count=" ++ toString room.exits.length ++ "\n" ++
    String.join (room.exits.zipIdx.map fun (e, i) =>
      "    EXIT[" ++ toString i ++ "] edge=" ++ e.edge ++ " -> " ++ e.room ++ ":" ++ e.spawn ++ "\n") ++
    "  OBJS ofs=" ++ toString l.objects ++ " count=" ++ toString l.records.length ++ " recsize=" ++
    toString objectRecordSize ++ "\n" ++
    String.join (l.records.zipIdx.map fun (r, i) => recordText r i) ++ "\n"

def streamText (s : Stream) (kind : ScriptKind) : String :=
  String.join ((s.offsets.mergeSort fun a b => decide (a.2 ≤ b.2)).map fun (name, offset) =>
    "  " ++ kind.keyword ++ "@" ++ toString offset ++ " " ++ name ++ "\n")

/-- The map of symbols: where everything lies in the blob. -/
def symbolMap (c : Compiled) : String :=
  let l := c.layout
  "LEVEL name=\"" ++ c.level.name ++ "\" blob_size=" ++ toString c.blob.length ++ "\n" ++
    "HDR room_dir=" ++ toString l.directory ++ " cond_stream=" ++ toString l.condStream ++
    " act_stream=" ++ toString l.actStream ++ " msg_table=" ++ toString l.messageTable ++ "\n\n" ++
    String.join (l.rooms.zipIdx.map fun (r, i) => roomText r c.level i) ++
    "SCRIPTS\n" ++ streamText l.conds .cond ++ streamText l.acts .act ++ "\nMESSAGES\n" ++
    String.join (((c.level.messages.keys.zip l.messages).zipIdx).map fun ((name, offset), i) =>
      "  MSG[" ++ toString i ++ "] " ++ name ++ " ofs=" ++ toString offset ++ "\n")

def offsetsJson (t : Table String Nat) : Json :=
  .obj (t.map fun (name, n) => (name, .int n))

def recordSummary (r : ObjectRecord) : Json :=
  let o := r.object
  .obj [("name", .str o.name), ("x", .int o.x), ("y", .int o.y), ("type_name", .str o.typeName),
    ("type_id", .int r.typeCode), ("verbs", .int o.verbs), ("p0", .int r.p0.toNat),
    ("p1", .int r.p1.toNat), ("cond_name", .str o.cond), ("ofs_conds", .int r.cond),
    ("look", .str o.look), ("ofs_look", .int r.look), ("take", .str o.take),
    ("ofs_take", .int r.take), ("use", .str o.use), ("ofs_use", .int r.use), ("talk", .str o.talk),
    ("ofs_talk", .int r.talk), ("operate", .str o.operate), ("ofs_op", .int r.operate),
    ("alt0", .str o.alt0), ("ofs_alt0", .int r.alt0), ("alt1", .str o.alt1),
    ("ofs_alt1", .int r.alt1)]

def roomSummary (l : RoomLayout) (level : Level) : Json :=
  .obj [("rid", .str l.room.id), ("name", .str l.room.name), ("ofs_map", .int l.map),
    ("map_size", .int (level.width * level.height)), ("ofs_spawns", .int l.spawns),
    ("spawn_keys", .arr (l.room.spawns.keys.map .str)), ("ofs_exits", .int l.exits),
    ("exits", .arr (l.room.exits.map fun e => .arr [.str e.edge, .str e.room, .str e.spawn])),
    ("ofs_objects", .int l.objects), ("objects", .arr (l.records.map recordSummary))]

def summary (c : Compiled) : Json :=
  let l := c.layout
  .obj [("name", .str c.level.name), ("w", .int c.level.width), ("h", .int c.level.height),
    ("rooms", .arr (c.level.rooms.keys.map .str)),
    ("ids", .obj [("flags", offsetsJson l.ids.flags), ("vars", offsetsJson l.ids.vars),
      ("items", offsetsJson l.ids.items), ("msgs", offsetsJson l.ids.messages),
      ("rooms", offsetsJson l.ids.rooms)]),
    ("offsets", .obj [("room_dir", .int l.directory), ("cond_stream", .int l.condStream),
      ("act_stream", .int l.actStream), ("msg_table", .int l.messageTable)]),
    ("cond_offsets", offsetsJson l.conds.offsets), ("act_offsets", offsetsJson l.acts.offsets),
    ("room_sym", .arr (l.rooms.map fun r => roomSummary r c.level)),
    ("msg_names", .arr (c.level.messages.keys.map .str)),
    ("msg_string_offsets", .arr (l.messages.map fun (n : Nat) => .int n)),
    ("blob_size", .int c.blob.length)]

end EscapeRoom.Level
