import EscapeRoom.Proofs.Level.Layout
import EscapeRoom.Proofs.Level.ScriptLines

/-!
# The numbers that a blob holds

A blob is a sequence of slots, bytes and words, each for a number of the level: a count, a coordinate, the
offset of a script. A slot holds its number modulo its size.
-/

namespace EscapeRoom.Level

open Report

inductive SlotKind where
  /-- One that is the same in all levels. -/
  | mark
  /-- How many rooms, names, messages, spawn points, exits or objects there are. -/
  | count
  /-- The width or the height of all maps. -/
  | extent
  /-- The position of a name among the names of its kind. -/
  | number
  /-- Where a stream or the message table begins, or a script in its stream. -/
  | offset
  /-- Where a part of a room or a message begins. -/
  | address
  | tile
  | coordinate
  | edge
  | objectType
  | verbs
  /-- A part of a keypad code, or the expectation of a breaker panel. -/
  | digits
  | operation
  /-- An operand or a parameter that is written as a number. -/
  | value
  | letter
  deriving DecidableEq

/-- Offsets and addresses take a word, all other numbers a byte. -/
def SlotKind.isWord : SlotKind → Bool
  | .offset | .address => true
  | _ => false

def SlotKind.size (k : SlotKind) : Int :=
  if k.isWord then 65536 else 256

structure Slot where
  kind : SlotKind
  value : Int

namespace Slot

def bytes (s : Slot) : Bytes :=
  if s.kind.isWord then wordOf s.value else [byteOf s.value]

/-- The number that is read from bytes, the low byte first. -/
def read (b : Bytes) : Int :=
  b.foldr (fun x n => x.toNat + 256 * n) 0

def Exact (s : Slot) : Prop :=
  0 ≤ s.value ∧ s.value < s.kind.size

def encode (slots : List Slot) : Bytes :=
  slots.flatMap bytes

@[simp] theorem encode_nil : encode [] = [] := rfl

@[simp] theorem encode_cons (s : Slot) (slots : List Slot) : encode (s :: slots) = s.bytes ++ encode slots :=
  rfl

@[simp] theorem encode_append (slots more : List Slot) :
    encode (slots ++ more) = encode slots ++ encode more :=
  List.flatMap_append

@[simp] theorem encode_flatten (parts : List (List Slot)) :
    encode parts.flatten = (parts.map encode).flatten := by
  induction parts with
  | nil => rfl
  | cons part parts ih => rw [List.flatten_cons, encode_append, ih, List.map_cons, List.flatten_cons]

theorem read_bytes (s : Slot) : read s.bytes = s.value % s.kind.size := by
  have hlow := coe_toNat_byteOf s.value
  have hh := coe_toNat_byteOf (s.value / 256)
  unfold bytes SlotKind.size
  split
  · simp only [read, wordOf, List.foldr_cons, List.foldr_nil]
    omega
  · simp only [read, List.foldr_cons, List.foldr_nil]
    omega

theorem exact_iff_read_bytes (s : Slot) : s.Exact ↔ read s.bytes = s.value := by
  have hpos : 0 < s.kind.size := by
    unfold SlotKind.size
    split <;> decide
  rw [read_bytes]
  constructor
  · exact fun h => Int.emod_eq_of_lt h.1 h.2
  · intro h
    exact ⟨h ▸ Int.emod_nonneg _ (by omega), h ▸ Int.emod_lt_of_pos _ hpos⟩

end Slot

/-! The slots of rooms -/

def wordSlots (kind : SlotKind) (words : List Nat) : List Slot :=
  words.map fun (n : Nat) => ⟨kind, n⟩

def countedSlots (parts : List (List Slot)) : List Slot :=
  ⟨.count, parts.length⟩ :: parts.flatten

def spawnSlots (s : Spawn) : List Slot :=
  [⟨.coordinate, s.x⟩, ⟨.coordinate, s.y⟩]

def ExitSlots (level : Level) (e : Exit) (slots : List Slot) : Prop :=
  ∃ edge room spawn : Nat, level.IsExit e edge room spawn ∧
    slots = [⟨.edge, edge⟩, ⟨.number, room⟩, ⟨.number, spawn⟩]

def firstKind (o : LevelObject) : SlotKind :=
  if o.typeName = "PICKUP" ∧ o.props.has "item" then .number
  else if o.typeName = "LOCKER_KEYPAD" ∧ o.props.has "code" then .digits
  else if o.typeName = "BREAKER_PANEL" ∧ o.props.has "var" then .number
  else .value

def secondKind (o : LevelObject) : SlotKind :=
  if o.typeName = "LOCKER_KEYPAD" ∧ o.props.has "code" then .digits
  else if o.typeName = "BREAKER_PANEL" ∧ o.props.has "expect" then .digits
  else .value

def ObjectSlots (level : Level) (conds acts : Stream) (o : LevelObject) (slots : List Slot) : Prop :=
  ∃ (typeCode cond : Nat) (first second : Int) (actions : List Nat),
    objectTypes.get? o.typeName = some typeCode ∧ FirstParameter level o first ∧
    SecondParameter o second ∧ Begins conds o.cond cond ∧
    List.Forall₂ (Begins acts) o.actions actions ∧
    slots = [⟨.coordinate, o.x⟩, ⟨.coordinate, o.y⟩, ⟨.objectType, typeCode⟩, ⟨.verbs, o.verbs⟩,
      ⟨firstKind o, first⟩, ⟨secondKind o, second⟩, ⟨.offset, cond⟩] ++
      wordSlots .offset actions

/-- The slots of a room: its map, its spawn points, its exits, its objects. -/
def RoomSlots (level : Level) (conds acts : Stream) (room : Room) (slots : List Slot) : Prop :=
  ∃ ids exits objects, TileIds level room ids ∧ List.Forall₂ (ExitSlots level) room.exits exits ∧
    List.Forall₂ (ObjectSlots level conds acts) room.objects objects ∧
    slots = ids.map (Slot.mk .tile) ++ countedSlots (room.spawns.values.map spawnSlots) ++
      countedSlots exits ++ countedSlots objects

/-! The slots of scripts -/

def noOperand : Slot :=
  ⟨.mark, 0⟩

def stopSlots : List Slot :=
  [⟨.operation, 0⟩, noOperand, noOperand]

inductive ConditionSlots (level : Level) : Condition → List Slot → Prop
  | always : ConditionSlots level .always [⟨.operation, 1⟩, noOperand, noOperand]
  | flagSet {flag : String} {i : Nat} : Numbered level.flags flag i →
      ConditionSlots level (.flagSet flag) [⟨.operation, 2⟩, ⟨.number, i⟩, noOperand]
  | flagClear {flag : String} {i : Nat} : Numbered level.flags flag i →
      ConditionSlots level (.flagClear flag) [⟨.operation, 3⟩, ⟨.number, i⟩, noOperand]
  | has {item : String} {i : Nat} : Numbered level.items item i →
      ConditionSlots level (.has item) [⟨.operation, 4⟩, ⟨.number, i⟩, noOperand]
  | varEquals {var value : String} {i : Nat} {n : Int} : Numbered level.vars var i →
      Number.parseLiteral .marked value = .ok n →
      ConditionSlots level (.varEquals var value) [⟨.operation, 5⟩, ⟨.number, i⟩, ⟨.value, n⟩]

inductive ActionSlots (level : Level) : Action → List Slot → Prop
  | showMessage {message : String} {i : Nat} : Numbered level.messages.keys message i →
      ActionSlots level (.showMessage message) [⟨.operation, 1⟩, ⟨.number, i⟩, noOperand]
  | setFlag {flag : String} {i : Nat} : Numbered level.flags flag i →
      ActionSlots level (.setFlag flag) [⟨.operation, 2⟩, ⟨.number, i⟩, noOperand]
  | clearFlag {flag : String} {i : Nat} : Numbered level.flags flag i →
      ActionSlots level (.clearFlag flag) [⟨.operation, 3⟩, ⟨.number, i⟩, noOperand]
  | give {item : String} {i : Nat} : Numbered level.items item i →
      ActionSlots level (.give item) [⟨.operation, 4⟩, ⟨.number, i⟩, noOperand]
  | take {item : String} {i : Nat} : Numbered level.items item i →
      ActionSlots level (.take item) [⟨.operation, 5⟩, ⟨.number, i⟩, noOperand]
  | setVar {var value : String} {i : Nat} {n : Int} : Numbered level.vars var i →
      Number.parseLiteral .marked value = .ok n →
      ActionSlots level (.setVar var value) [⟨.operation, 6⟩, ⟨.number, i⟩, ⟨.value, n⟩]
  | playSound {sound : String} {n : Int} : Number.parseLiteral .marked sound = .ok n →
      ActionSlots level (.playSound sound) [⟨.operation, 7⟩, ⟨.value, n⟩, noOperand]
  | transition {room spawn : String} {i j : Nat} : level.IsPlace room spawn i j →
      ActionSlots level (.transition room spawn) [⟨.operation, 8⟩, ⟨.number, i⟩, ⟨.number, j⟩]

/-- The slots of the script lines that count, if `Slots` tells those of an operation. -/
inductive ScriptSlots {α : Type} (Said : List String → α → Prop) (Slots : α → List Slot → Prop) :
    List (Nat × String) → List Slot → Prop
  | nil : ScriptSlots Said Slots [] stopSlots
  | blank {number : Nat} {raw : String} {rest : List (Nat × String)} {slots : List Slot} :
      Text.words raw = [] → ScriptSlots Said Slots rest slots →
      ScriptSlots Said Slots ((number, raw) :: rest) slots
  | step {number : Nat} {raw : String} {rest : List (Nat × String)} {t : α} {part slots : List Slot} :
      Said (Text.words raw) t → Slots t part → ScriptSlots Said Slots rest slots →
      ScriptSlots Said Slots ((number, raw) :: rest) (part ++ slots)

/-! The slots of a level -/

def headerSlots (level : Level) (layout : Layout) (room spawn : Nat) : List Slot :=
  [⟨.mark, 76⟩, ⟨.mark, 86⟩, ⟨.mark, 76⟩, ⟨.mark, 49⟩, ⟨.mark, 1⟩, ⟨.count, level.rooms.length⟩,
    ⟨.extent, level.width⟩, ⟨.extent, level.height⟩, ⟨.count, level.flags.length⟩,
    ⟨.count, level.vars.length⟩, ⟨.count, level.items.length⟩, ⟨.count, level.messages.length⟩,
    ⟨.number, room⟩, ⟨.number, spawn⟩, ⟨.address, 22⟩, ⟨.offset, layout.condStream⟩,
    ⟨.offset, layout.actStream⟩, ⟨.offset, layout.messageTable⟩]

/-- The slots of a text: its letters, a question mark for what is not ASCII, and a zero. -/
def textSlots (text : String) : List Slot :=
  text.toList.map (fun c => ⟨.letter, if c.toNat < 128 then c.toNat else 63⟩) ++ [⟨.letter, 0⟩]

/-- The slots of a level: its header, the directory, the rooms, the conditions, the actions, which begin
with one that does nothing, and the messages. -/
def LevelSlots (level : Level) (layout : Layout) (slots : List Slot) : Prop :=
  ∃ room spawn rooms conds acts, level.IsPlace level.startRoom level.startSpawn room spawn ∧
    List.Forall₂ (RoomSlots level layout.conds layout.acts) level.rooms.values rooms ∧
    List.Forall₂ (fun script => ScriptSlots Condition.Said (ConditionSlots level)
      (Script.liveLines script.lines)) level.conds.values conds ∧
    List.Forall₂ (fun script => ScriptSlots Action.Said (ActionSlots level)
      (Script.liveLines script.lines)) level.acts.values acts ∧
    slots = headerSlots level layout room spawn ++
      wordSlots .address (layout.rooms.flatMap RoomLayout.entry) ++ rooms.flatten ++
      conds.flatten ++ stopSlots ++ acts.flatten ++ ⟨.count, level.messages.length⟩ ::
      wordSlots .address layout.messages ++ level.messages.values.flatMap textSlots

/-! A blob is made of its slots -/

theorem isWord_firstKind (o : LevelObject) : (firstKind o).isWord = false := by
  unfold firstKind
  split_ifs <;> rfl

theorem isWord_secondKind (o : LevelObject) : (secondKind o).isWord = false := by
  unfold secondKind
  split_ifs <;> rfl

theorem encode_wordSlots {kind : SlotKind} (hk : kind.isWord = true) (words : List Nat) :
    Slot.encode (wordSlots kind words) = words.flatMap fun (n : Nat) => wordOf n := by
  rw [Slot.encode, wordSlots, List.flatMap_map]
  simp only [Slot.bytes, hk, if_true]

theorem encode_countedSlots (parts : List (List Slot)) :
    Slot.encode (countedSlots parts) = byteOf parts.length :: (parts.map Slot.encode).flatten := by
  rw [countedSlots, Slot.encode_cons, Slot.encode_flatten]
  rfl

theorem spawnBytes_eq_encode (room : Room) :
    spawnBytes room = Slot.encode (countedSlots (room.spawns.values.map spawnSlots)) := by
  rw [encode_countedSlots, List.length_map, length_values, List.map_map, spawnBytes, List.flatMap_def]
  rfl

theorem encode_tiles (ids : List Int) : Slot.encode (ids.map (Slot.mk .tile)) = ids.map byteOf := by
  rw [Slot.encode, List.flatMap_map, List.map_eq_flatMap]
  rfl

theorem encode_textSlots (text : String) : Slot.encode (textSlots text) = messageBytes text := by
  have hl : ∀ c : Char, Slot.bytes ⟨.letter, if c.toNat < 128 then c.toNat else 63⟩ =
      [if c.toNat < 128 then UInt8.ofNat c.toNat else 63] := by
    intro c
    have hb : Slot.bytes ⟨.letter, if c.toNat < 128 then c.toNat else 63⟩ =
        [byteOf (if c.toNat < 128 then c.toNat else 63)] := rfl
    rw [hb, byteOf]
    split
    · congr 2
      omega
    · rfl
  rw [textSlots, Slot.encode_append, messageBytes, Slot.encode, List.flatMap_map, List.map_eq_flatMap]
  simp only [hl]
  rfl

theorem scriptSlots_of_compiles {α : Type} {Said : List String → α → Prop}
    {Code : α → Instruction → Prop} {Slots : α → List Slot → Prop}
    (hc : ∀ t i, Code t i → ∃ part, Slots t part ∧ i.bytes = Slot.encode part)
    {live : List (Nat × String)} {code : Bytes} (h : Script.Compiles Said Code live code) :
    ∃ slots, ScriptSlots Said Slots live slots ∧ code = Slot.encode slots := by
  induction h with
  | nil => exact ⟨stopSlots, .nil, rfl⟩
  | blank hb _ ih =>
    obtain ⟨slots, hs, hc⟩ := ih
    exact ⟨slots, .blank hb hs, hc⟩
  | step hsa hi _ ih =>
    obtain ⟨part, hp, hby⟩ := hc _ _ hi
    obtain ⟨slots, hs, rfl⟩ := ih
    exact ⟨part ++ slots, .step hsa hp hs, by rw [hby, Slot.encode_append]⟩

section

variable {level : Level} {conds acts : Stream}

theorem conditionSlots_of_compile {line : Nat} {raw : String} {t : Condition} {i : Instruction}
    (h : (t.compile level.ids line raw).Yields i) :
    ∃ slots, ConditionSlots level t slots ∧ i.bytes = Slot.encode slots := by
  cases t with
  | always =>
    rw [Condition.compile, yields_pure] at h
    exact ⟨_, .always, h ▸ rfl⟩
  | flagSet flag | flagClear flag | has item =>
    simp only [Condition.compile, yields_bind, yields_pure, resolveId_yields, ids,
      Ids.get?_number] at h
    obtain ⟨n, hn, rfl⟩ := h
    exact ⟨_, by constructor; exact hn, rfl⟩
  | varEquals var value =>
    simp only [Condition.compile, yields_bind, yields_pure, resolveId_yields, ids,
      Ids.get?_number] at h
    obtain ⟨n, hn, b, hb, rfl⟩ := h
    obtain ⟨m, hm, rfl⟩ := byteValue_yields hb
    exact ⟨_, .varEquals hn hm, rfl⟩

theorem actionSlots_of_compile (hk : level.Keyed) {line : Nat} {raw : String} {t : Action}
    {i : Instruction} (h : (t.compile level.ids line raw).Yields i) :
    ∃ slots, ActionSlots level t slots ∧ i.bytes = Slot.encode slots := by
  cases t with
  | showMessage message | setFlag flag | clearFlag flag | give item | take item =>
    simp only [Action.compile, yields_bind, yields_pure, resolveId_yields, ids,
      Ids.get?_number] at h
    obtain ⟨n, hn, rfl⟩ := h
    exact ⟨_, by constructor; exact hn, rfl⟩
  | setVar var value =>
    simp only [Action.compile, yields_bind, yields_pure, resolveId_yields, ids,
      Ids.get?_number] at h
    obtain ⟨n, hn, b, hb, rfl⟩ := h
    obtain ⟨m, hm, rfl⟩ := byteValue_yields hb
    exact ⟨_, .setVar hn hm, rfl⟩
  | playSound sound =>
    simp only [Action.compile, yields_bind, yields_pure] at h
    obtain ⟨b, hb, rfl⟩ := h
    obtain ⟨m, hm, rfl⟩ := byteValue_yields hb
    exact ⟨_, .playSound hm, rfl⟩
  | transition room spawn =>
    simp only [Action.compile, yields_bind, resolveId_yields] at h
    obtain ⟨n, hn, h⟩ := h
    split at h
    · rename_i m hm
      rw [yields_pure] at h
      exact ⟨_, .transition (isPlace_of_ids hk hn hm), h ▸ rfl⟩
    · simp at h

theorem objectSlots_of_isRecord {o : LevelObject} {r : ObjectRecord}
    (h : IsRecord level conds acts o r) :
    ∃ slots, ObjectSlots level conds acts o slots ∧ r.bytes = Slot.encode slots := by
  obtain ⟨first, hf, hp0⟩ := h.first
  obtain ⟨second, hs, hp1⟩ := h.second
  refine ⟨_, ⟨r.typeCode, r.cond, first, second, r.actions, h.typeCode, hf, hs, h.cond,
    h.actions, rfl⟩, ?_⟩
  rw [Slot.encode_append, encode_wordSlots rfl]
  simp only [Slot.encode_cons, Slot.encode_nil, Slot.bytes, isWord_firstKind, isWord_secondKind]
  rw [ObjectRecord.bytes, h.object, hp0, hp1]
  rfl

theorem roomSlots_of_roomData (hk : level.Keyed) {room : Room} {offset : Nat} {l : RoomLayout}
    {bytes : Bytes} (h : (roomData level.ids conds acts level room offset).Yields (l, bytes)) :
    ∃ slots, RoomSlots level conds acts room slots ∧ bytes = Slot.encode slots := by
  simp only [roomData, yields_bind, yields_pure, Prod.mk.injEq] at h
  obtain ⟨map, hmap, exits, he, records, hre, rfl, rfl⟩ := h
  obtain ⟨ids, hids, rfl⟩ := mapBytes_yields hmap
  obtain ⟨found, rfl, hf⟩ := exitBytes_yields hk he
  have hre := forall₂_filterMap_id
    (S := fun o r => (objectRecord level.ids conds acts room o).Yields (some r))
    (fun _ _ ho => objectRecord_isSome ho) (yields_mapM.mp hre)
  have hes : List.Forall₂ (fun e b => ∃ part, ExitSlots level e part ∧ b = Slot.encode part)
      room.exits found := by
    refine hf.imp ?_
    rintro e _ ⟨edge, destination, spawn, hex, rfl⟩
    exact ⟨_, ⟨edge, destination, spawn, hex, rfl⟩, rfl⟩
  obtain ⟨exitParts, hep, rfl⟩ := exists_map_of_forall₂ hes
  obtain ⟨objectParts, hop, hob⟩ := exists_map_of_forall₂
    (List.forall₂_map_right_iff.mpr (hre.imp fun _ _ hr =>
      objectSlots_of_isRecord (objectRecord_yields hr)))
  refine ⟨_, ⟨ids, exitParts, objectParts, hids, hep, hop, rfl⟩, ?_⟩
  simp only [Slot.encode_append, encode_tiles, encode_countedSlots, spawnBytes_eq_encode,
    List.flatMap_def, hob, hep.length_eq, hop.length_eq]

theorem roomSlots_of_roomsData (hk : level.Keyed) {rooms : List Room} {offset : Nat}
    {layouts : List RoomLayout} {bytes : Bytes}
    (h : (roomsData level.ids conds acts level rooms offset).Yields (layouts, bytes)) :
    ∃ parts, List.Forall₂ (RoomSlots level conds acts) rooms parts ∧
      bytes = Slot.encode parts.flatten := by
  induction rooms generalizing offset layouts bytes with
  | nil =>
    simp only [roomsData, yields_pure, Prod.mk.injEq] at h
    exact ⟨[], .nil, h.2.symm⟩
  | cons room rooms ih =>
    simp only [roomsData, yields_bind, yields_pure, Prod.mk.injEq] at h
    obtain ⟨⟨l, first⟩, hf, ⟨ls, more⟩, hm, rfl, rfl⟩ := h
    obtain ⟨slots, hs, rfl⟩ := roomSlots_of_roomData hk hf
    obtain ⟨parts, hp, rfl⟩ := ih hm
    exact ⟨slots :: parts, .cons hs hp, by rw [List.flatten_cons, Slot.encode_append]⟩

theorem conditionSlots_of_stream (h : (conditionStream level.ids level).Yields conds) :
    ∃ parts, List.Forall₂ (fun script => ScriptSlots Condition.Said (ConditionSlots level)
      (Script.liveLines script.lines)) level.conds.values parts ∧
      conds.code = Slot.encode parts.flatten := by
  obtain ⟨codes, hc, hco⟩ :=
    code_of_foldlM (fun script => Script.conditionCode level.ids script.lines) h
  obtain ⟨parts, hp, rfl⟩ := exists_map_of_forall₂ (hc.imp fun _ _ hy =>
    scriptSlots_of_compiles (fun _ _ ⟨_, _, hi⟩ => conditionSlots_of_compile hi)
      (Script.compiles_of_yields Condition.says_readLine hy))
  refine ⟨parts, hp, ?_⟩
  rw [hco, Slot.encode_flatten]
  rfl

theorem actionSlots_of_stream (hk : level.Keyed) (h : (actionStream level.ids level).Yields acts) :
    ∃ parts, List.Forall₂ (fun script => ScriptSlots Action.Said (ActionSlots level)
      (Script.liveLines script.lines)) level.acts.values parts ∧
      acts.code = Slot.encode (stopSlots ++ parts.flatten) := by
  obtain ⟨codes, hc, hco⟩ :=
    code_of_foldlM (fun script => Script.actionCode level.ids script.lines) h
  obtain ⟨parts, hp, rfl⟩ := exists_map_of_forall₂ (hc.imp fun _ _ hy =>
    scriptSlots_of_compiles (fun _ _ ⟨_, _, hi⟩ => actionSlots_of_compile hk hi)
      (Script.compiles_of_yields Action.says_readLine hy))
  refine ⟨parts, hp, ?_⟩
  rw [hco, Slot.encode_append, Slot.encode_flatten]
  rfl

/-- The blob of a level is made of the slots of the level, one after the other. -/
theorem blob_eq_encode (hk : level.Keyed) {c : Compiled} (h : level.compile.Yields c) :
    ∃ slots, level.LevelSlots c.layout slots ∧ c.blob = Slot.encode slots := by
  simp only [compile, yields_bind, yields_pure, exactWords_yields] at h
  obtain ⟨conds, hc, acts, ha, ⟨layouts, roomBytes⟩, hr, _, ⟨_, rfl⟩, _, ⟨_, rfl⟩, start,
    hs, rfl⟩ := h
  obtain ⟨roomParts, hrp, rfl⟩ := roomSlots_of_roomsData hk hr
  obtain ⟨condParts, hcp, hcc⟩ := conditionSlots_of_stream hc
  obtain ⟨actParts, hap, hac⟩ := actionSlots_of_stream hk ha
  refine ⟨_, ⟨start.1, start.2, roomParts, condParts, actParts, startIds_yields hk hs, hrp,
    hcp, hap, rfl⟩, ?_⟩
  have hh : ∀ layout : Layout, layout.directory = 22 →
      headerBytes level layout start = Slot.encode (headerSlots level layout start.1 start.2) := by
    intro layout hdi
    rw [headerBytes, hdi]
    rfl
  have hco : (level.messages.values.map messageBytes).length = level.messages.length := by
    rw [List.length_map, length_values]
  have ht : Slot.encode (level.messages.values.flatMap textSlots) =
      (level.messages.values.map messageBytes).flatten := by
    rw [List.flatMap_def, Slot.encode_flatten, List.map_map]
    exact congrArg List.flatten (List.map_congr_left fun text _ => encode_textSlots text)
  have hw : ∀ words, Slot.encode (wordSlots .address words) =
      words.flatMap fun (n : Nat) => wordOf n := encode_wordSlots rfl
  rw [hh _ rfl, hco]
  simp only [Slot.encode_append, Slot.encode_cons, ht, hw, hcc, hac,
    List.append_assoc, List.cons_append]
  rfl

end

end EscapeRoom.Level
