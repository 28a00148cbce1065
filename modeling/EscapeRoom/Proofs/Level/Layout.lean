import EscapeRoom.Proofs.Level.Streams
import EscapeRoom.Proofs.Level.Tiling

/-!
# Where the parts of a blob stand

A level that is compiled without an issue has all its parts in its blob, each at the offset that the layout
gives for it: header, directory, rooms, streams, messages.
-/

namespace EscapeRoom.Level

open Report

variable {bytes : Bytes} {offset : Nat}

/-- The parts of a room stand where its layout says. -/
structure RoomStands (level : Level) (conds acts : Stream) (blob : Bytes) (room : Room)
    (l : RoomLayout) : Prop where
  map : ∃ bytes, (mapBytes level room).Yields bytes ∧ blob.HoldsAt l.map bytes
  spawns : blob.HoldsAt l.spawns (spawnBytes room)
  exits : ∃ bytes, (exitBytes level.ids room).Yields bytes ∧ blob.HoldsAt l.exits bytes
  records : List.Forall₂ (fun o r => (objectRecord level.ids conds acts room o).Yields (some r))
    room.objects l.records
  objects : blob.HoldsAt l.objects
    (byteOf room.objects.length :: l.records.flatMap ObjectRecord.bytes)

variable {level : Level} {conds acts : Stream} {blob : Bytes}

theorem objectRecord_isSome {room : Room} {o : LevelObject} {r : Option ObjectRecord}
    (h : (objectRecord level.ids conds acts room o).Yields r) :
    ∃ record, r = some record ∧ (objectRecord level.ids conds acts room o).Yields (some record) := by
  have h' := h
  unfold objectRecord at h
  split at h
  · simp at h
  · simp only [yields_bind, yields_pure] at h
    obtain ⟨_, _, _, _, _, _, _, _, _, _, _, _, _, _, _, _, _, _, rfl⟩ := h
    exact ⟨_, rfl, h'⟩

theorem roomStands_of_roomData {room : Room} {l : RoomLayout}
    (h : (roomData level.ids conds acts level room offset).Yields (l, bytes))
    (hb : blob.HoldsAt offset bytes) : RoomStands level conds acts blob room l := by
  simp only [roomData, yields_bind, yields_pure, Prod.mk.injEq] at h
  obtain ⟨map, hmap, exits, he, records, hr, rfl, rfl⟩ := h
  have hr := forall₂_filterMap_id
    (S := fun o r => (objectRecord level.ids conds acts room o).Yields (some r))
    (fun _ _ ho => objectRecord_isSome ho) (yields_mapM.mp hr)
  have hlen := hb.right
  have hex := hb.left.right
  simp only [List.length_append, ← Nat.add_assoc] at hlen hex
  exact ⟨⟨map, hmap, hb.left.left.left⟩, hb.left.left.right, ⟨exits, he, hex⟩, hr, hlen⟩

theorem roomsStand_of_roomsData {rooms : List Room} {layouts : List RoomLayout}
    (h : (roomsData level.ids conds acts level rooms offset).Yields (layouts, bytes)) (hb : blob.HoldsAt offset bytes) :
    List.Forall₂ (RoomStands level conds acts blob) rooms layouts := by
  induction rooms generalizing offset layouts bytes with
  | nil =>
    simp only [roomsData, yields_pure, Prod.mk.injEq] at h
    rw [← h.1]
    exact .nil
  | cons room rooms ih =>
    simp only [roomsData, yields_bind, yields_pure, Prod.mk.injEq] at h
    obtain ⟨⟨l, first⟩, hf, ⟨ls, more⟩, hm, rfl, rfl⟩ := h
    exact .cons (roomStands_of_roomData hf hb.left) (ih hm hb.right)

theorem textsStand {texts : List String} (h : blob.HoldsAt offset (texts.map messageBytes).flatten) :
    List.Forall₂ (fun text o => blob.HoldsAt o (messageBytes text)) texts
      (textOffsets (texts.map messageBytes) offset) := by
  induction texts generalizing offset with
  | nil => exact .nil
  | cons text texts ih =>
    rw [List.map_cons, List.flatten_cons] at h
    exact .cons h.left (ih h.right)

theorem exactWords_yields {words : List Nat} : (exactWords words).Yields bytes ↔
      (∀ n ∈ words, n < 65536) ∧ bytes = words.flatMap fun (n : Nat) => wordOf n := by
  unfold exactWords
  split
  · rename_i h
    simp only [List.all_eq_true, decide_eq_true_eq] at h
    rw [yields_pure, and_iff_right h]
    exact eq_comm
  · rename_i h
    simp only [List.all_eq_true, decide_eq_true_eq] at h
    simp [h]

structure Stands (level : Level) (c : Compiled) : Prop where
  ids_eq : c.layout.ids = level.ids
  conds : (conditionStream level.ids level).Yields c.layout.conds
  acts : (actionStream level.ids level).Yields c.layout.acts
  header : ∃ start, (startIds level.ids level).Yields start ∧
    c.blob.HoldsAt 0 (headerBytes level c.layout start)
  directory_eq : c.layout.directory = 22
  directory : c.blob.HoldsAt 22
    ((c.layout.rooms.flatMap RoomLayout.entry).flatMap fun (n : Nat) => wordOf n)
  entries_lt : ∀ n ∈ c.layout.rooms.flatMap RoomLayout.entry, n < 65536
  rooms : List.Forall₂ (RoomStands level c.layout.conds c.layout.acts c.blob) level.rooms.values
    c.layout.rooms
  condStream : c.blob.HoldsAt c.layout.condStream c.layout.conds.code
  actStream_eq : c.layout.actStream = c.layout.condStream + c.layout.conds.code.length
  actStream : c.blob.HoldsAt c.layout.actStream c.layout.acts.code
  messageTable_eq : c.layout.messageTable = c.layout.actStream + c.layout.acts.code.length
  messageCount : c.blob.HoldsAt c.layout.messageTable [byteOf level.messages.length]
  messageTable : c.blob.HoldsAt (c.layout.messageTable + 1)
    (c.layout.messages.flatMap fun (n : Nat) => wordOf n)
  messages_eq : c.layout.messages =
    textOffsets (level.messages.values.map messageBytes)
      (c.layout.messageTable + 1 + 2 * level.messages.length)
  messages_lt : ∀ n ∈ c.layout.messages, n < 65536
  texts : List.Forall₂ (fun text o => c.blob.HoldsAt o (messageBytes text)) level.messages.values
    c.layout.messages

theorem length_headerBytes (level : Level) (layout : Layout) (start : Nat × Nat) :
    (headerBytes level layout start).length = 22 := rfl

theorem length_values {κ ν : Type} (t : Table κ ν) : t.values.length = t.length :=
  List.length_map _

theorem length_textOffsets (texts : List Bytes) (offset : Nat) :
    (textOffsets texts offset).length = texts.length := by
  induction texts generalizing offset with
  | nil => rfl
  | cons text texts ih => simp [textOffsets, ih]

theorem length_words (words : List Nat) :
    (words.flatMap fun (n : Nat) => wordOf n).length = 2 * words.length :=
  Bytes.length_flatMap_const fun (n : Nat) _ => length_wordOf n

theorem length_entries (rooms : List RoomLayout) :
    (rooms.flatMap RoomLayout.entry).length = 4 * rooms.length := by
  induction rooms with
  | nil => rfl
  | cons room rooms ih =>
    rw [List.flatMap_cons, List.length_append, ih, List.length_cons]
    simp only [RoomLayout.entry, List.length_cons, List.length_nil]
    omega

theorem length_of_roomsData {rooms : List Room} {layouts : List RoomLayout}
    (h : (roomsData level.ids conds acts level rooms offset).Yields (layouts, bytes)) :
    layouts.length = rooms.length := by
  induction rooms generalizing offset layouts bytes with
  | nil =>
    simp only [roomsData, yields_pure, Prod.mk.injEq] at h
    exact h.1 ▸ rfl
  | cons room rooms ih =>
    simp only [roomsData, yields_bind, yields_pure, Prod.mk.injEq] at h
    obtain ⟨_, _, ⟨ls, more⟩, hm, rfl, rfl⟩ := h
    rw [List.length_cons, ih hm, List.length_cons]

theorem holdsAt_parts {header directory rooms conds acts words texts : Bytes} {count : UInt8}
    (hb : blob = header ++ directory ++ rooms ++ conds ++ acts ++ count :: words ++ texts) :
    blob.HoldsAt 0 header ∧ blob.HoldsAt header.length directory ∧
    blob.HoldsAt (header.length + directory.length) rooms ∧
    blob.HoldsAt (header.length + directory.length + rooms.length) conds ∧
    blob.HoldsAt (header.length + directory.length + rooms.length + conds.length) acts ∧
    blob.HoldsAt (header.length + directory.length + rooms.length + conds.length + acts.length)
      (count :: words) ∧
    blob.HoldsAt (header.length + directory.length + rooms.length + conds.length + acts.length + 1 +
      words.length) texts := by
  have h := Bytes.holdsAt_self blob
  nth_rewrite 2 [hb] at h
  have hw := h.left.right
  have ht := h.right
  have ha := h.left.left.right
  have hc := h.left.left.left.right
  have hr := h.left.left.left.left.right
  have hdi := h.left.left.left.left.left.right
  simp only [List.length_append, List.length_cons, Nat.zero_add]
    at hw ht ha hc hr hdi
  refine ⟨h.left.left.left.left.left.left, hdi, hr, hc, ha, hw, ?_⟩
  rwa [Nat.add_assoc _ 1, Nat.add_comm 1]

theorem stands_of_compile {c : Compiled} (h : level.compile.Yields c) : Stands level c := by
  simp only [compile, yields_bind, yields_pure, exactWords_yields] at h
  obtain ⟨conds, hco, acts, ha, ⟨layouts, roomBytes⟩, hr, _, ⟨hm, rfl⟩, _,
    ⟨he, rfl⟩, start, hs, hc⟩ := h
  have hl := (length_of_roomsData hr).trans (length_values level.rooms)
  obtain ⟨hh, hdi, hro, hcn, hact, ht, hte⟩ :=
    holdsAt_parts (congrArg Compiled.blob hc).symm
  simp only [length_headerBytes, length_words, length_entries, length_textOffsets, hl]
    at hdi hro hcn hact ht hte
  have hs' : 22 + 2 * (4 * level.rooms.length) =
      headerSize + level.rooms.length * directoryEntrySize := by
    simp only [headerSize, directoryEntrySize]
    omega
  rw [hs'] at hro hcn hact ht hte
  subst hc
  have hct : (level.messages.values.map messageBytes).length = level.messages.length := by
    rw [List.length_map, length_values]
  constructor
  · rfl
  · exact hco
  · exact ha
  · exact ⟨start, hs, hh⟩
  · rfl
  · exact hdi
  · exact he
  · exact roomsStand_of_roomsData hr hro
  · exact hcn
  · rfl
  · exact hact
  · rfl
  · exact hct ▸ ht.head
  · exact ht.tail
  · rw [← hct]
  · exact hm
  · exact textsStand hte

end EscapeRoom.Level
