import EscapeRoom.Files.Tree
import EscapeRoom.Level.Read
import EscapeRoom.Proofs.Lines
import EscapeRoom.Proofs.Literals

/-!
# Levels as texts

A level is written down section by section, with its header first and its rooms last. The entries of a section
are set off from its name, and a line `END` ends it. A level can be written if its names are words that mean
nothing else in a level file, and its texts hold nothing that ends a line, a comment or a quotation.
-/

namespace EscapeRoom

namespace Level

/-- The words that begin or end a part of a level file. -/
def keywords : List String :=
  ["END", "ENDROOM", "LEVEL", "TILES", "FLAGS", "VARS", "ITEMS", "MESSAGES", "COND", "ACT", "ROOM", "SPAWNS",
   "EXITS", "OBJECTS", "MAP"]

/-- A word of ASCII letters, digits and underscores that is no keyword. -/
def IsName (s : String) : Prop :=
  s ≠ "" ∧ (∀ c ∈ s.toList, Text.isNameChar c = true) ∧ s ∉ keywords

/-- A text that can stand between quotes on a line. -/
def IsQuotable (s : String) : Prop :=
  ∀ c ∈ s.toList, c ∉ [';', '\n', '\r']

/-- A text of one character that can be the key of a tile. -/
def IsTileKey (s : String) : Prop :=
  s.length = 1 ∧ ∀ c ∈ s.toList, Text.isBlank c = false ∧ c ≠ ';'

/-- A text that can stand as a value without quotes. -/
def IsBare (s : String) : Prop :=
  s ≠ "" ∧ ∀ c ∈ s.toList, Text.isBlank c = false ∧ c ∉ ['"', ';']

instance (s : String) : Decidable (IsName s) :=
  inferInstanceAs (Decidable (_ ∧ _ ∧ _))

instance (s : String) : Decidable (IsQuotable s) :=
  inferInstanceAs (Decidable (∀ _ ∈ _, _))

instance (s : String) : Decidable (IsTileKey s) :=
  inferInstanceAs (Decidable (_ ∧ _))

instance (s : String) : Decidable (IsBare s) :=
  inferInstanceAs (Decidable (_ ∧ _))

/-- A line of a script or a row of a map. -/
@[mk_iff]
structure IsRow (t : String) : Prop extends IsLine t where
  ne_end : t ≠ "END"
  ne_endRoom : t ≠ "ENDROOM"

instance (t : String) : Decidable (IsRow t) :=
  decidable_of_iff _ (isRow_iff t).symm

def blockLines (head : String) (entries : List String) : List String :=
  head :: (entries.map ("  " ++ ·) ++ ["END"])

def positionText (x y : Int) : String :=
  Text.join "," [toString x, toString y]

def lineText (pieces : List Piece) : String :=
  Text.join " " (pieces.map Piece.text)

end Level

open Level

def Script.printLines (kind : ScriptKind) (script : Script) : List String :=
  blockLines (Text.join " " [kind.keyword, script.name]) (script.lines.map (·.2))

def Exit.print (e : Exit) : String :=
  Text.join " " [e.edge, Text.join ":" [e.room, e.spawn]]

def chosenVerbs (mask : Nat) : List String :=
  (verbNames.zipIdx.filter fun e => mask.testBit e.2).map (·.1)

def joinedVerbs (mask : Nat) : String :=
  Text.join "|" (chosenVerbs mask)

namespace LevelObject

/-- The scripts of an object by the names of their fields. -/
def scriptFields (o : LevelObject) : Fields :=
  [("look", o.look), ("take", o.take), ("use", o.use), ("talk", o.talk), ("operate", o.operate), ("ok", o.alt0),
   ("bad", o.alt1)]

/-- The fields of an object's line. A script that is not named has no field. -/
def fields (o : LevelObject) : Fields :=
  [("type", o.typeName), ("verbs", joinedVerbs o.verbs), ("cond", o.cond)] ++
    (o.scriptFields.filter fun e => !e.2.isEmpty) ++ o.props

def pieces (o : LevelObject) : List Piece :=
  [.plain o.name, .plain "at", .plain (positionText o.x o.y)] ++ o.fields.map fun e => .bare e.1 e.2

@[mk_iff]
structure Printable (o : LevelObject) : Prop where
  name : IsName o.name
  typeName : IsName o.typeName
  verbs_pos : 0 < o.verbs
  verbs_lt : o.verbs < 32
  cond : IsName o.cond
  scripts : ∀ e ∈ o.scriptFields, e.2 = "" ∨ IsName e.2
  props_nodup : o.props.keys.Nodup
  props_key : ∀ e ∈ o.props, IsName e.1 ∧ e.1 ∉ reservedFields
  props_value : ∀ e ∈ o.props, IsBare e.2

instance (o : LevelObject) : Decidable o.Printable :=
  decidable_of_iff _ (printable_iff o).symm

end LevelObject

namespace Room

def headPieces (room : Room) : List Piece :=
  [.plain "ROOM", .plain room.id, .quoted "name" room.name]

def printLines (room : Room) : List String :=
  lineText room.headPieces ::
    (blockLines "SPAWNS" (room.spawns.map fun e => Text.join " " [e.1, positionText e.2.x e.2.y]) ++
      blockLines "EXITS" (room.exits.map Exit.print) ++
      blockLines "OBJECTS" (room.objects.map fun o => lineText o.pieces) ++
      blockLines "MAP" (room.map.map (·.2)) ++ ["ENDROOM", ""])

@[mk_iff]
structure Printable (room : Room) : Prop where
  id : IsName room.id
  name : IsQuotable room.name ∧ '"' ∉ room.name.toList
  spawns_nodup : room.spawns.keys.Nodup
  spawns : ∀ e ∈ room.spawns, IsName e.1
  exits : ∀ e ∈ room.exits, IsName e.edge ∧ IsName e.room ∧ IsName e.spawn
  objects_nodup : (room.objects.map (·.name)).Nodup
  objects : ∀ o ∈ room.objects, o.Printable
  map : ∀ row ∈ room.map, IsRow row.2

instance (room : Room) : Decidable room.Printable :=
  decidable_of_iff _ (printable_iff room).symm

/-- The coordinates in the room have no more digits than are read. -/
@[mk_iff]
structure Writable (room : Room) : Prop where
  spawns : ∀ e ∈ room.spawns, Number.Writable e.2.x ∧ Number.Writable e.2.y
  objects : ∀ o ∈ room.objects, Number.Writable o.x ∧ Number.Writable o.y

instance (room : Room) : Decidable room.Writable :=
  decidable_of_iff _ (writable_iff room).symm

end Room

@[mk_iff]
structure Script.Printable (script : Script) : Prop where
  name : IsName script.name
  lines : ∀ l ∈ script.lines, IsRow l.2

instance (script : Script) : Decidable script.Printable :=
  decidable_of_iff _ (Script.printable_iff script).symm

namespace Level

def headPieces (level : Level) : List Piece :=
  [.plain "LEVEL", .quoted "name" level.name, .bare "w" (toString level.width), .bare "h" (toString level.height),
   .bare "start" (Text.join ":" [level.startRoom, level.startSpawn])]

def tileText (e : String × Int) : String :=
  Text.join " " [e.1, toString e.2]

def messageText (e : String × String) : String :=
  Text.join " " [e.1, "=", "\"" ++ e.2 ++ "\""]

def printLines (level : Level) : List String :=
  [lineText level.headPieces, ""] ++
    blockLines "TILES" (level.tiles.map tileText) ++ [""] ++
    blockLines "FLAGS" level.flags ++ [""] ++
    blockLines "VARS" level.vars ++ [""] ++
    blockLines "ITEMS" level.items ++ [""] ++
    blockLines "MESSAGES" (level.messages.map messageText) ++ [""] ++
    level.conds.flatMap (fun e => e.2.printLines .cond ++ [""]) ++
    level.acts.flatMap (fun e => e.2.printLines .act ++ [""]) ++
    level.rooms.flatMap fun e => e.2.printLines

def print (level : Level) : String :=
  Text.unlines level.printLines

/-- The level can be written so that its lines are told apart and its names are found again. -/
@[mk_iff]
structure Printable (level : Level) : Prop where
  name : IsQuotable level.name ∧ '"' ∉ level.name.toList
  start : IsName level.startRoom ∧ IsName level.startSpawn
  tiles_ne_nil : level.tiles ≠ []
  tiles_nodup : level.tiles.keys.Nodup
  tiles : ∀ e ∈ level.tiles, IsTileKey e.1
  stamps : level.stamps = []
  flags_nodup : level.flags.Nodup
  flags : ∀ name ∈ level.flags, IsName name
  vars_nodup : level.vars.Nodup
  vars : ∀ name ∈ level.vars, IsName name
  items_nodup : level.items.Nodup
  items : ∀ name ∈ level.items, IsName name
  messages_nodup : level.messages.keys.Nodup
  messages : ∀ e ∈ level.messages, IsName e.1 ∧ IsQuotable e.2
  conds_nodup : level.conds.keys.Nodup
  conds : ∀ e ∈ level.conds, e.1 = e.2.name ∧ e.2.Printable
  always : "ALWAYS" ∈ level.conds.keys
  acts_nodup : level.acts.keys.Nodup
  acts : ∀ e ∈ level.acts, e.1 = e.2.name ∧ e.2.Printable
  rooms_nodup : level.rooms.keys.Nodup
  rooms : ∀ e ∈ level.rooms, e.1 = e.2.id ∧ e.2.Printable

instance (level : Level) : Decidable level.Printable :=
  decidable_of_iff _ (printable_iff level).symm

/-- The numbers of the level have no more digits than are read. -/
@[mk_iff]
structure Writable (level : Level) : Prop where
  width : Number.Writable level.width
  height : Number.Writable level.height
  tiles : ∀ e ∈ level.tiles, Number.Writable e.2
  rooms : ∀ e ∈ level.rooms, e.2.Writable

instance (level : Level) : Decidable level.Writable :=
  decidable_of_iff _ (writable_iff level).symm

end Level

/-! ### What stands on the lines -/

namespace Level

variable {s t key value : String} {c : Char} {texts : List String}

theorem isNameChar_bare (h : Text.isNameChar c = true) : Text.isBlank c = false ∧ c ∉ ['"', ';'] := by
  obtain ⟨hb, -, hn⟩ := Text.isNameChar_plain h
  refine ⟨hb, fun hm => hn ?_⟩
  simp only [List.mem_cons, List.not_mem_nil, or_false] at hm ⊢
  rcases hm with rfl | rfl
  · simp
  · simp

theorem IsName.not_mem (h : IsName s) {c : Char} (hc : c ∈ ['=', ':', ',', ';', '"', '|', '\n', '\r']) :
    c ∉ s.toList :=
  fun hs => (Text.isNameChar_plain (h.2.1 c hs)).2.2 hc

theorem IsName.isBare (h : IsName s) : IsBare s := by
  exact ⟨h.1, fun c hc => isNameChar_bare (h.2.1 c hc)⟩

theorem IsName.isKey (h : IsName s) : Piece.IsKey s :=
  ⟨h.1, fun c hc => (Text.isNameChar_plain (h.2.1 c hc)).2.1⟩

theorem IsBare.isWord (h : IsBare s) : Text.IsWord s :=
  ⟨h.1, fun c hc => (h.2 c hc).1⟩

theorem IsBare.isLine (h : IsBare s) : IsLine s := by
  refine isLine_of_forall h.1 fun c hc => ⟨(h.2 c hc).1, fun hm => ?_⟩
  have hb := (h.2 c hc).1
  have hn := (h.2 c hc).2
  simp only [List.mem_cons, List.not_mem_nil, or_false] at hm
  rcases hm with rfl | rfl | rfl
  · exact hn (by simp)
  · exact absurd hb (by decide)
  · exact absurd hb (by decide)

theorem isNameChar_of_mem_toString {z : Int} (h : c ∈ (toString z).toList) : c = '-' ∨ Text.isNameChar c = true := by
  refine (Number.mem_toString h).imp_right fun hd => ?_
  have hb := Number.toNat_bounds_of_isDigit hd
  have hle : '0' ≤ c ∧ c ≤ '9' := hb
  simp [Text.isNameChar, Text.isAsciiAlphanumeric, Text.isAsciiDigit, hle.1, hle.2]

theorem not_mem_toString {z : Int} (hc : c ∈ ['=', ':', ',', ';', '"', '|', '\n', '\r']) : c ∉ (toString z).toList := by
  intro h
  rcases isNameChar_of_mem_toString h with rfl | hn
  · revert hc
    decide
  · exact (Text.isNameChar_plain hn).2.2 hc

theorem isBare_toString (z : Int) : IsBare (toString z) := by
  refine ⟨Number.toString_ne_empty z, fun c hc => ?_⟩
  rcases isNameChar_of_mem_toString hc with rfl | hn
  · decide
  · exact isNameChar_bare hn

theorem isBare_join {sep : String} (hsep : IsBare sep) (hne : texts ≠ []) (h : ∀ t ∈ texts, IsBare t) :
    IsBare (Text.join sep texts) := by
  induction texts with
  | nil => exact absurd rfl hne
  | cons t rest ih =>
    rw [List.forall_mem_cons] at h
    by_cases hr : rest = []
    · subst hr
      exact h.1
    · have hl := Text.toList_join_cons sep t rest hr
      have hre := ih hr h.2
      refine ⟨?_, fun c hc => ?_⟩
      · rw [← String.toList_eq_nil_iff.ne, hl]
        simp [h.1.1]
      · rw [hl, List.mem_append, List.mem_append] at hc
        rcases hc with hc | hc | hc
        · exact h.1.2 c hc
        · exact hsep.2 c hc
        · exact hre.2 c hc

theorem isBare_pair {a b : String} (sep : String) (hsep : IsBare sep) (ha : IsBare a) (hb : IsBare b) :
    IsBare (Text.join sep [a, b]) :=
  isBare_join hsep (by simp) (by simp [ha, hb])

theorem isBare_positionText (x y : Int) : IsBare (positionText x y) :=
  isBare_pair "," (by decide) (isBare_toString x) (isBare_toString y)

theorem not_mem_positionText (x y : Int) : '=' ∉ (positionText x y).toList := by
  rw [positionText, Text.toList_join_cons _ _ _ (by simp)]
  simp only [List.mem_append, not_or]
  refine ⟨not_mem_toString (by simp), by decide, ?_⟩
  exact not_mem_toString (by simp)

end Level

namespace Piece

/-- A word of a written line: it is told from the words around it, and it breaks no line. -/
def Printable (p : Piece) : Prop :=
  p.Readable ∧ IsLine p.text

theorem plain_printable {t : String} (h : IsBare t) (heq : '=' ∉ t.toList) : (plain t).Printable :=
  ⟨heq, h.isLine⟩

theorem bare_printable {key value : String} (hk : IsName key) (hv : IsBare value) : (bare key value).Printable := by
  refine ⟨⟨hk.isKey, hv.1, fun c hc => ⟨(hv.2 c hc).1, fun h => (hv.2 c hc).2 (by simp [h])⟩⟩, ?_⟩
  have hb : IsBare (key ++ "=" ++ value) := by
    refine ⟨by simp [hk.1], fun c hc => ?_⟩
    simp only [String.toList_append, List.mem_append] at hc
    rcases hc with (hc | hc) | hc
    · exact hk.isBare.2 c hc
    · obtain rfl : c = '=' := by simpa using hc
      decide
    · exact hv.2 c hc
  exact hb.isLine

theorem quoted_printable {key value : String} (hk : IsName key) (hv : IsQuotable value) (hq : '"' ∉ value.toList) :
    (quoted key value).Printable := by
  refine ⟨⟨hk.isKey, fun c hc => ⟨fun h => hq (h ▸ hc), fun h => hv c hc (by simp [h])⟩⟩, ?_⟩
  have hkne : key.toList ≠ [] := by simpa using hk.1
  have hkl := hk.isBare.isLine
  have hl : (quoted key value).text.toList = key.toList ++ ("=\"".toList ++ (value.toList ++ ['"'])) := by
    simp [text]
  refine ⟨by simp [text, hk.1], ?_, ?_⟩
  · rw [hl]
    refine Text.trimChars_of_ends ?_ ?_
    · rw [List.head?_append_of_ne_nil _ hkne]
      exact Text.head_of_trimChars hkl.trimmed
    · have hla : (key.toList ++ ("=\"".toList ++ (value.toList ++ ['"']))).getLast? = some '"' := by
        rw [← List.append_assoc, ← List.append_assoc, List.getLast?_concat]
      rw [hla]
      rintro _ ⟨⟩
      decide
  · rw [hl]
    intro c hc
    simp only [List.mem_append] at hc
    rcases hc with hc | hc | hc | hc
    · exact hkl.plain c hc
    · revert c
      decide
    · exact hv c hc
    · revert c
      decide

theorem isLine_lineText {pieces : List Piece} (hne : pieces ≠ []) (h : ∀ p ∈ pieces, p.Printable) :
    IsLine (lineText pieces) := by
  refine isLine_join (by simpa using hne) fun t ht => ?_
  obtain ⟨p, hp, rfl⟩ := List.mem_map.mp ht
  exact (h p hp).2

theorem scan_lineText {pieces : List Piece} (h : ∀ p ∈ pieces, p.Printable) :
    Fields.scan (lineText pieces) = Table.ofEntries (pieces.filterMap field?) :=
  scan_join fun p hp => (h p hp).1

end Piece

namespace Level

def blockTexts (head : String) (entries : List String) : List String :=
  head :: (entries ++ ["END"])

theorem prints_section {head : String} {entries : List String} (hh : IsLine head) (h : ∀ t ∈ entries, IsLine t) :
    Prints (blockLines head entries) (blockTexts head entries) := by
  have he : Prints (entries.map ("  " ++ ·)) entries := by
    have hea : ∀ t ∈ entries, Prints ["  " ++ t] [t] := fun t ht => Prints.indented "  " (by decide) (h t ht)
    simpa [List.map_eq_flatMap] using Prints.flatMap hea
  exact (Prints.line hh).append (he.append (Prints.line (isLine_of_forall (by decide) (by decide))))

end Level

def Script.texts (kind : ScriptKind) (script : Script) : List String :=
  blockTexts (Text.join " " [kind.keyword, script.name]) (script.lines.map (·.2))

def Room.texts (room : Room) : List String :=
  [lineText room.headPieces] ++
    blockTexts "SPAWNS" (room.spawns.map fun e => Text.join " " [e.1, positionText e.2.x e.2.y]) ++
    blockTexts "EXITS" (room.exits.map Exit.print) ++
    blockTexts "OBJECTS" (room.objects.map fun o => lineText o.pieces) ++
    blockTexts "MAP" (room.map.map (·.2)) ++ ["ENDROOM"]

def Level.texts (level : Level) : List String :=
  [lineText level.headPieces] ++
    blockTexts "TILES" (level.tiles.map tileText) ++
    blockTexts "FLAGS" level.flags ++
    blockTexts "VARS" level.vars ++
    blockTexts "ITEMS" level.items ++
    blockTexts "MESSAGES" (level.messages.map messageText) ++
    level.conds.flatMap (fun e => e.2.texts .cond) ++
    level.acts.flatMap (fun e => e.2.texts .act) ++
    level.rooms.flatMap fun e => e.2.texts

theorem keyword_spec : ∀ t ∈ keywords, t ≠ "" ∧ t.length ≠ 1 ∧
    ∀ c ∈ t.toList, Text.isBlank c = false ∧ c ∉ [';', '\n', '\r'] := by
  decide +kernel

theorem isLine_keyword : ∀ t ∈ keywords, IsLine t := by
  intro t ht
  obtain ⟨hne, -, hc⟩ := keyword_spec t ht
  exact isLine_of_forall hne hc

theorem Script.prints {script : Script} (h : script.Printable) (kind : ScriptKind) :
    Prints (script.printLines kind) (script.texts kind) := by
  have hk : IsLine kind.keyword := by
    cases kind
    · exact isLine_keyword _ (by simp [keywords, ScriptKind.keyword])
    · exact isLine_keyword _ (by simp [keywords, ScriptKind.keyword])
  refine prints_section (isLine_join (by simp) ?_) ?_
  · simp [hk, h.name.isBare.isLine]
  · intro t ht
    obtain ⟨l, hl, rfl⟩ := List.mem_map.mp ht
    exact (h.lines l hl).toIsLine

theorem chosenVerbs_mask :
    ∀ mask < 32, (chosenVerbs mask).foldl (fun n verb => n ||| 1 <<< (verbBit? verb).getD 0) 0 = mask := by
  decide +kernel

theorem chosenVerbs_ne_nil {mask : Nat} (hpos : 0 < mask) (hlt : mask < 32) : chosenVerbs mask ≠ [] := by
  intro h
  have hm := chosenVerbs_mask mask hlt
  rw [h] at hm
  exact absurd hm (Nat.ne_of_lt hpos)

theorem mem_verbNames_of_chosenVerbs {mask : Nat} {verb : String} (h : verb ∈ chosenVerbs mask) : verb ∈ verbNames := by
  obtain ⟨e, he, rfl⟩ := List.mem_map.mp h
  exact List.fst_mem_of_mem_zipIdx (List.mem_of_mem_filter he)

-- One evaluation for all words that are written as they are listed.
theorem isName_listed : ∀ word ∈ verbNames ++ (reservedFields ++ ["name", "w", "h", "start"]), IsName word := by
  decide +kernel

theorem isName_verb : ∀ verb ∈ verbNames, IsName verb :=
  fun verb h => isName_listed verb (List.mem_append_left _ h)

theorem isBare_joinedVerbs {mask : Nat} (hpos : 0 < mask) (hlt : mask < 32) : IsBare (joinedVerbs mask) :=
  isBare_join (by decide) (chosenVerbs_ne_nil hpos hlt) fun verb hv =>
    (isName_verb verb (mem_verbNames_of_chosenVerbs hv)).isBare

theorem isName_reserved : ∀ key ∈ reservedFields, IsName key :=
  fun key h => isName_listed key (List.mem_append_right _ (List.mem_append_left _ h))

theorem isName_header : ∀ key ∈ ["name", "w", "h", "start"], IsName key :=
  fun key h => isName_listed key (List.mem_append_right _ (List.mem_append_right _ h))

namespace LevelObject

variable {o : LevelObject}

theorem mem_reserved_of_scriptFields : ∀ e ∈ o.scriptFields, e.1 ∈ reservedFields := by
  simp [scriptFields, reservedFields]

theorem Printable.fields (h : o.Printable) : ∀ e ∈ o.fields, IsName e.1 ∧ IsBare e.2 := by
  intro e he
  simp only [LevelObject.fields, List.mem_append, List.mem_cons, List.not_mem_nil, or_false, List.mem_filter] at he
  rcases he with ((rfl | rfl | rfl) | ⟨he, hne⟩) | he
  · exact ⟨isName_reserved _ (by simp [reservedFields]), h.typeName.isBare⟩
  · exact ⟨isName_reserved _ (by simp [reservedFields]), isBare_joinedVerbs h.verbs_pos h.verbs_lt⟩
  · exact ⟨isName_reserved _ (by simp [reservedFields]), h.cond.isBare⟩
  · refine ⟨isName_reserved _ (mem_reserved_of_scriptFields e he), ?_⟩
    rcases h.scripts e he with hem | hn
    · simp [hem] at hne
    · exact hn.isBare
  · exact ⟨(h.props_key e he).1, h.props_value e he⟩

theorem Printable.pieces (h : o.Printable) : ∀ p ∈ o.pieces, p.Printable := by
  intro p hp
  simp only [LevelObject.pieces, List.mem_append, List.mem_cons, List.not_mem_nil, or_false, List.mem_map] at hp
  rcases hp with (rfl | rfl | rfl) | ⟨e, he, rfl⟩
  · exact Piece.plain_printable h.name.isBare (h.name.not_mem (by simp))
  · exact Piece.plain_printable (by decide) (by decide)
  · exact Piece.plain_printable (isBare_positionText _ _) (not_mem_positionText _ _)
  · exact Piece.bare_printable (h.fields e he).1 (h.fields e he).2

end LevelObject

namespace Room

variable {room : Room}

theorem Printable.headPieces (h : room.Printable) : ∀ p ∈ room.headPieces, p.Printable := by
  intro p hp
  simp only [Room.headPieces, List.mem_cons, List.not_mem_nil, or_false] at hp
  rcases hp with rfl | rfl | rfl
  · exact Piece.plain_printable (by decide) (by decide)
  · exact Piece.plain_printable h.id.isBare (h.id.not_mem (by simp))
  · exact Piece.quoted_printable (isName_header _ (by simp)) h.name.1 h.name.2

theorem Printable.prints (h : room.Printable) : Prints room.printLines room.texts := by
  have hs : ∀ t ∈ room.spawns.map fun e => Text.join " " [e.1, positionText e.2.x e.2.y], IsLine t := by
    intro t ht
    obtain ⟨e, he, rfl⟩ := List.mem_map.mp ht
    refine isLine_join (by simp) ?_
    simp [(h.spawns e he).isBare.isLine, (isBare_positionText e.2.x e.2.y).isLine]
  have hex : ∀ t ∈ room.exits.map Exit.print, IsLine t := by
    intro t ht
    obtain ⟨e, he, rfl⟩ := List.mem_map.mp ht
    obtain ⟨hed, hr, hsp⟩ := h.exits e he
    refine isLine_join (by simp) ?_
    simp [hed.isBare.isLine, (isBare_pair ":" (by decide) hr.isBare hsp.isBare).isLine]
  have hob : ∀ t ∈ room.objects.map fun o => lineText o.pieces, IsLine t := by
    intro t ht
    obtain ⟨o, ho, rfl⟩ := List.mem_map.mp ht
    exact Piece.isLine_lineText (by simp [LevelObject.pieces]) (h.objects o ho).pieces
  have hmap : ∀ t ∈ room.map.map (·.2), IsLine t := by
    intro t ht
    obtain ⟨row, hrow, rfl⟩ := List.mem_map.mp ht
    exact (h.map row hrow).toIsLine
  have hh : IsLine (lineText room.headPieces) := Piece.isLine_lineText (by simp [Room.headPieces]) h.headPieces
  have hkey : ∀ t ∈ keywords, IsLine t := isLine_keyword
  have hse := ((((Prints.line hh).append
    (prints_section (hkey "SPAWNS" (by simp [keywords])) hs)).append
    (prints_section (hkey "EXITS" (by simp [keywords])) hex)).append
    (prints_section (hkey "OBJECTS" (by simp [keywords])) hob)).append
    (prints_section (hkey "MAP" (by simp [keywords])) hmap)
  have hend := (Prints.line (hkey "ENDROOM" (by simp [keywords]))).append Prints.blank
  simpa [Room.printLines, Room.texts] using hse.append hend

end Room

namespace Level

variable {level : Level}

theorem Printable.headPieces (h : level.Printable) : ∀ p ∈ level.headPieces, p.Printable := by
  intro p hp
  simp only [Level.headPieces, List.mem_cons, List.not_mem_nil, or_false] at hp
  rcases hp with rfl | rfl | rfl | rfl | rfl
  · exact Piece.plain_printable (by decide) (by decide)
  · exact Piece.quoted_printable (isName_header _ (by simp)) h.name.1 h.name.2
  · exact Piece.bare_printable (isName_header _ (by simp)) (isBare_toString _)
  · exact Piece.bare_printable (isName_header _ (by simp)) (isBare_toString _)
  · exact Piece.bare_printable (isName_header _ (by simp))
      (isBare_pair ":" (by decide) h.start.1.isBare h.start.2.isBare)

theorem IsTileKey.isLine {s : String} (h : IsTileKey s) : IsLine s := by
  refine isLine_of_forall (by rintro rfl; exact absurd h.1 (by decide)) fun c hc => ?_
  obtain ⟨hb, hs⟩ := h.2 c hc
  simp only [List.mem_cons, List.not_mem_nil, or_false, not_or]
  refine ⟨hb, hs, ?_, ?_⟩
  · rintro rfl
    exact absurd hb (by decide)
  · rintro rfl
    exact absurd hb (by decide)

theorem isLine_quotation {t : String} (h : IsQuotable t) : IsLine ("\"" ++ t ++ "\"") := by
  have hl : ("\"" ++ t ++ "\"").toList = '"' :: t.toList ++ ['"'] := by
    simp
  refine ⟨by simp, ?_, ?_⟩
  · rw [hl]
    refine Text.trimChars_of_ends (by simp; decide) ?_
    rw [List.getLast?_concat]
    rintro _ ⟨⟩
    decide
  · rw [hl]
    intro c hc
    simp only [List.cons_append, List.mem_cons, List.mem_append, List.not_mem_nil, or_false] at hc
    rcases hc with rfl | hc | rfl
    · decide
    · exact h c hc
    · decide

theorem isLine_messageText {e : String × String} (hn : IsName e.1) (ht : IsQuotable e.2) :
    IsLine (messageText e) := by
  refine isLine_join (by simp) ?_
  have heq : IsLine "=" := isLine_of_forall (by decide) (by decide)
  simp [hn.isBare.isLine, heq, isLine_quotation ht]

theorem Printable.prints (h : level.Printable) : Prints level.printLines level.texts := by
  have hkey : ∀ t ∈ keywords, IsLine t := isLine_keyword
  have hti : ∀ t ∈ level.tiles.map tileText, IsLine t := by
    intro t ht
    obtain ⟨e, he, rfl⟩ := List.mem_map.mp ht
    have hl := (h.tiles e he).isLine
    have hid := (isBare_toString e.2).isLine
    exact isLine_join (by simp) (by simp only [List.forall_mem_cons]; exact ⟨hl, hid, by simp⟩)
  have hm : ∀ t ∈ level.messages.map messageText, IsLine t := by
    intro t ht
    obtain ⟨e, he, rfl⟩ := List.mem_map.mp ht
    exact isLine_messageText (h.messages e he).1 (h.messages e he).2
  have hh : IsLine (lineText level.headPieces) := Piece.isLine_lineText (by simp [Level.headPieces]) h.headPieces
  have hs : ∀ head ∈ keywords, ∀ entries : List String, (∀ t ∈ entries, IsLine t) →
      Prints (blockLines head entries ++ [""]) (blockTexts head entries) := by
    intro head hh entries hen
    simpa using (prints_section (hkey head hh) hen).append Prints.blank
  have hc : Prints (level.conds.flatMap fun e => e.2.printLines .cond ++ [""])
      (level.conds.flatMap fun e => e.2.texts .cond) :=
    Prints.flatMap fun e he => by simpa using (Script.prints (h.conds e he).2 .cond).append Prints.blank
  have ha : Prints (level.acts.flatMap fun e => e.2.printLines .act ++ [""])
      (level.acts.flatMap fun e => e.2.texts .act) :=
    Prints.flatMap fun e he => by simpa using (Script.prints (h.acts e he).2 .act).append Prints.blank
  have hr : Prints (level.rooms.flatMap fun e => e.2.printLines) (level.rooms.flatMap fun e => e.2.texts) :=
    Prints.flatMap fun e he => (h.rooms e he).2.prints
  have hall := (((((((((Prints.line hh).append Prints.blank).append
    (hs "TILES" (by simp [keywords]) _ hti)).append
    (hs "FLAGS" (by simp [keywords]) _ fun t ht => (h.flags t ht).isBare.isLine)).append
    (hs "VARS" (by simp [keywords]) _ fun t ht => (h.vars t ht).isBare.isLine)).append
    (hs "ITEMS" (by simp [keywords]) _ fun t ht => (h.items t ht).isBare.isLine)).append
    (hs "MESSAGES" (by simp [keywords]) _ hm)).append hc).append ha).append hr
  simpa [Level.printLines, Level.texts] using hall

/-- Reading a written level line by line, one meets what stands on its lines. -/
theorem Printable.map_text_sourceLines (h : level.Printable) :
    (sourceLines (FileTree.normalized level.print)).map Line.text = level.texts := by
  have he : FileTree.normalized level.print = level.print := by
    rw [FileTree.normalized, Level.print, h.prints.normalizeEnds_unlines, String.ofList_toList]
  rw [he]
  exact h.prints.map_text_sourceLines_unlines

end Level

end EscapeRoom
