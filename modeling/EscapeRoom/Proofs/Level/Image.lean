import EscapeRoom.Proofs.Level.Layout

/-!
# The image of a compiled level

An image made from a blob of at most 65535 bytes finds the sections of the blob by the words of its header,
its directory and its table of messages.
-/

namespace EscapeRoom

theorem takeWhile_append_zero (p rest : Bytes) :
    (p ++ 0 :: rest).takeWhile (· != 0) = p.takeWhile (· != 0) := by
  induction p with
  | nil => rfl
  | cons x p ih => simp [List.takeWhile_cons, ih]

theorem LevelImage.textAt_of_holdsAt {b p : Bytes} {o : Nat} (h : b.HoldsAt o (p ++ [0])) :
    (ofBytes b).memory.textAt o = p.takeWhile (· != 0) := by
  have hsi : (ofBytes b).memory.cells.size = b.length := List.size_toArray
  obtain ⟨before, after, hb, rfl⟩ := h
  have hr : b.HoldsAt before.length (p ++ 0 :: after) := ⟨before, [], by simp [hb], rfl⟩
  have hlen : b.length - before.length = (p ++ 0 :: after).length := by simp [hb]
  rw [Memory.textAt, hsi, hlen, slice_of_holdsAt hr, takeWhile_append_zero]

namespace Level

variable {level : Level} {c : Compiled} {l : RoomLayout} {r : Nat}

def Compiled.image (c : Compiled) : LevelImage :=
  LevelImage.ofBytes c.blob

theorem Stands.headerWords (hs : Stands level c) :
    c.blob.HoldsAt 14 (wordOf c.layout.directory) ∧ c.blob.HoldsAt 16 (wordOf c.layout.condStream) ∧
    c.blob.HoldsAt 18 (wordOf c.layout.actStream) ∧
    c.blob.HoldsAt 20 (wordOf c.layout.messageTable) := by
  obtain ⟨start, _, hh⟩ := hs.header
  exact ⟨hh.left.left.left.right, hh.left.left.right, hh.left.right, hh.right⟩

theorem Stands.headerByte (hs : Stands level c) :
    ∃ start, (startIds level.ids level).Yields start ∧ ∀ a : UInt16, a.toNat < 22 →
      c.image.byte a = (headerBytes level c.layout start).getD a.toNat 0 := by
  obtain ⟨start, hst, hh⟩ := hs.header
  exact ⟨start, hst, fun a ha =>
    LevelImage.byte_of_holdsAt hh (i := a.toNat) ha (Nat.zero_add _).symm⟩

theorem Stands.flagCount (hs : Stands level c) : c.image.flagCount = byteOf level.flags.length := by
  obtain ⟨start, _, hb⟩ := hs.headerByte
  exact hb 8 (by decide)

theorem Stands.varCount (hs : Stands level c) : c.image.varCount = byteOf level.vars.length := by
  obtain ⟨start, _, hb⟩ := hs.headerByte
  exact hb 9 (by decide)

theorem Stands.isValid (hs : Stands level c) : c.image.isValid = true := by
  obtain ⟨start, _, hh⟩ := hs.header
  have hm : c.blob.HoldsAt 0 (Bytes.ofAscii "LVL1" ++ [1]) :=
    hh.left.left.left.left.left (p := Bytes.ofAscii "LVL1" ++ [1])
  exact beq_iff_eq.mpr (LevelImage.slice_of_holdsAt hm)

theorem Stands.entryWords (hs : Stands level c) (hl : c.layout.rooms[r]? = some l) :
    c.blob.HoldsAt (22 + 8 * r) (wordOf l.map) ∧ c.blob.HoldsAt (22 + 8 * r + 2) (wordOf l.spawns) ∧
    c.blob.HoldsAt (22 + 8 * r + 4) (wordOf l.exits) ∧ c.blob.HoldsAt (22 + 8 * r + 6) (wordOf l.objects) := by
  have h := hs.directory
  rw [List.flatMap_assoc] at h
  have he := h.record (n := 8) (fun (l : RoomLayout) _ => length_words l.entry) hl
  exact ⟨he.left, he.right.left, he.right.right.left, he.right.right.right.left⟩

theorem Stands.entry_lt (hs : Stands level c) (hl : c.layout.rooms[r]? = some l) :
    l.map < 65536 ∧ l.spawns < 65536 ∧ l.exits < 65536 ∧ l.objects < 65536 := by
  have h : ∀ n ∈ l.entry, n < 65536 := fun n hn =>
    hs.entries_lt n (List.mem_flatMap.mpr ⟨l, List.mem_of_getElem? hl, hn⟩)
  simpa [RoomLayout.entry] using h

theorem Stands.toNat_directory (hs : Stands level c) : c.image.directory.toNat = 22 := by
  have h := LevelImage.word_of_holdsAt_of_lt hs.headerWords.1 (a := 14) rfl
  rw [hs.directory_eq] at h
  exact h (by decide)

theorem Stands.roomOffsets (hs : Stands level c) (hr : r < 256) (hl : c.layout.rooms[r]? = some l) :
    let offsets := c.image.roomOffsets (UInt8.ofNat r)
    offsets.map.toNat = l.map ∧ offsets.spawns.toNat = l.spawns ∧ offsets.exits.toNat = l.exits ∧
      offsets.objects.toNat = l.objects := by
  obtain ⟨hmap, hsp, he, ho⟩ := hs.entryWords hl
  obtain ⟨hmap_lt, hspawns_lt, hexits_lt, hobjects_lt⟩ := hs.entry_lt hl
  have hen : (c.image.directory + (UInt8.ofNat r).toUInt16 * 8).toNat = 22 + 8 * r := by
    rw [UInt16.toNat_add, UInt16.toNat_mul, UInt8.toNat_toUInt16, toNat_uint8_ofNat hr,
      hs.toNat_directory]
    simp only [UInt16.reduceToNat]
    omega
  have hw : ∀ d : UInt16, d.toNat ≤ 6 →
      (c.image.directory + (UInt8.ofNat r).toUInt16 * 8 + d).toNat = 22 + 8 * r + d.toNat := by
    intro d hd
    rw [toNat_add_of_lt (by omega), hen]
  exact ⟨LevelImage.word_of_holdsAt_of_lt hmap hen hmap_lt,
    LevelImage.word_of_holdsAt_of_lt hsp (hw 2 (by decide)) hspawns_lt,
    LevelImage.word_of_holdsAt_of_lt he (hw 4 (by decide)) hexits_lt,
    LevelImage.word_of_holdsAt_of_lt ho (hw 6 (by decide)) hobjects_lt⟩

variable (hs : Stands level c) (hlen : c.blob.length ≤ 65535)
include hs hlen

theorem Stands.toNat_condStream : c.image.condStream.toNat = c.layout.condStream := by
  have := hs.condStream.length_le
  exact LevelImage.word_of_holdsAt_of_lt hs.headerWords.2.1 rfl (by omega)

theorem Stands.toNat_actStream : c.image.actStream.toNat = c.layout.actStream := by
  have := hs.actStream.length_le
  exact LevelImage.word_of_holdsAt_of_lt hs.headerWords.2.2.1 rfl (by omega)

theorem Stands.toNat_messageTable : c.image.messageTable.toNat = c.layout.messageTable := by
  have := hs.messageCount.length_le
  exact LevelImage.word_of_holdsAt_of_lt hs.headerWords.2.2.2 rfl (by omega)

theorem Stands.message (hc : level.messages.length ≤ 255) {i : Nat} {text : String}
    (hi : level.messages.values[i]? = some text) :
    c.image.message (UInt8.ofNat i) = some ((messageBytes text).takeWhile (· != 0)) := by
  have hlt : i < level.messages.length := by
    rw [← length_values]
    exact (List.getElem?_eq_some_iff.mp hi).1
  have hi' : (UInt8.ofNat i).toNat = i := toNat_uint8_ofNat (by omega)
  obtain ⟨o, ho, ht⟩ := exists_getElem?_of_forall₂ hs.texts hi
  have hta := hs.toNat_messageTable hlen
  have hb : c.image.byte c.image.messageTable = byteOf level.messages.length :=
    LevelImage.byte_of_holdsAt hs.messageCount (Nat.zero_lt_one) hta
  have hw := hs.messageTable.record (fun (n : Nat) _ => length_wordOf n) ho
  have hend := hw.length_le
  rw [length_wordOf] at hend
  have ha := toNat_recordAddress hta (show (2 : UInt16).toNat = 2 from rfl) hi' (by omega)
  have hof : (c.image.word _).toNat = o :=
    LevelImage.word_of_holdsAt_of_lt hw ha (hs.messages_lt o (List.mem_of_getElem? ho))
  have hle : ¬c.image.byte c.image.messageTable ≤ UInt8.ofNat i := by
    rw [hb, UInt8.le_iff_toNat_le, toNat_byteOf_natCast hc, hi']
    omega
  simp only [LevelImage.message, if_neg hle, hof, Option.some.injEq]
  rw [messageBytes, takeWhile_append_zero]
  exact LevelImage.textAt_of_holdsAt ht

end Level

end EscapeRoom
