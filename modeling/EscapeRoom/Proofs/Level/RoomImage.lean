import EscapeRoom.Proofs.Level.RoundTrip

/-!
# Rooms in the image of a level

The size of the map, the start, and the rooms with their map bytes, as the game reads them from the image of
a compiled level.
-/

namespace EscapeRoom.Level

variable {level : Level} {c : Compiled}

theorem Stands.toNat_mapWidth (hs : Stands level c) (hw : InByte level.width) :
    c.image.mapWidth.toNat = level.width.toNat := by
  obtain ⟨start, _, hb⟩ := hs.headerByte
  have h : (c.image.mapWidth.toNat : Int) = level.width := by
    rw [LevelImage.mapWidth, hb 6 (by decide)]
    exact coe_toNat_byteOf_of_range hw.1 hw.2
  omega

theorem Stands.toNat_mapHeight (hs : Stands level c) (hh : InByte level.height) :
    c.image.mapHeight.toNat = level.height.toNat := by
  obtain ⟨start, _, hb⟩ := hs.headerByte
  have h : (c.image.mapHeight.toNat : Int) = level.height := by
    rw [LevelImage.mapHeight, hb 7 (by decide)]
    exact coe_toNat_byteOf_of_range hh.1 hh.2
  omega

theorem Stands.readMap (hs : Stands level c) {r : Nat} {room : Room} (hr : r < 256)
    (hro : level.rooms.values[r]? = some room) :
    ∃ ids, TileIds level room ids ∧ ∀ (k : Nat) (id : Int), ids[k]? = some id →
      c.image.memory.read ((c.image.roomOffsets (UInt8.ofNat r)).map.toNat + k) = byteOf id := by
  obtain ⟨l, hl, hst⟩ := exists_getElem?_of_forall₂ hs.rooms hro
  obtain ⟨hmap, _⟩ := hs.roomOffsets hr hl
  obtain ⟨bytes, hb, hat⟩ := hst.map
  obtain ⟨ids, hids, rfl⟩ := mapBytes_yields hb
  refine ⟨ids, hids, fun k id hid => ?_⟩
  have hk : k < (ids.map byteOf).length := by
    rw [List.length_map]
    exact (List.getElem?_eq_some_iff.mp hid).1
  rw [hmap]
  refine (LevelImage.read_of_holdsAt hat hk).trans ?_
  rw [List.getD_eq_getElem?_getD, List.getElem?_map, hid]
  rfl

theorem Stands.showsRoom (hs : Stands level c) (hk : level.Keyed) (hf : level.Fits)
    (hlen : c.blob.length ≤ 65535) {r : Nat} {room : Room} (hr : level.rooms.values[r]? = some room) :
    ShowsRoom level c.image room (c.image.roomOffsets (UInt8.ofNat r)) := by
  have hlt := (List.getElem?_eq_some_iff.mp hr).1
  rw [length_values] at hlt
  have hro := hf.rooms
  obtain ⟨l, hl, hst⟩ := exists_getElem?_of_forall₂ hs.rooms hr
  obtain ⟨hmap, hsp, he, ho⟩ := hs.roomOffsets (by omega) hl
  exact showsRoom_of_stands hk hf hs hlen (hf.room room (List.mem_of_getElem? hr)) hst hmap
    hsp he ho

theorem Stands.start (hs : Stands level c) (hk : level.Keyed) (hf : level.Fits) :
    level.IsPlace level.startRoom level.startSpawn c.image.startRoom.toNat c.image.startSpawn.toNat := by
  obtain ⟨start, hst, hb⟩ := hs.headerByte
  rw [LevelImage.startRoom, LevelImage.startSpawn, hb 12 (by decide), hb 13 (by decide)]
  exact (startIds_yields hk hst).toNat_byteOf hf

theorem TileIds.exists_getElem? {room : Room} {ids : List Int} (h : TileIds level room ids) {x y w : Nat}
    (hx : x < w) (hy : y < level.height.toNat) (hw : w ≤ level.width.toNat) :
    ∃ id, ids[y * w + x]? = some id := by
  have hlt : y * w + x < ids.length := by
    calc y * w + x < y * w + w := by omega
      _ = (y + 1) * w := by ring
      _ ≤ level.height.toNat * level.width.toNat := Nat.mul_le_mul hy hw
      _ = ids.length := by rw [h.length, Nat.mul_comm]
  exact ⟨_, List.getElem?_eq_getElem hlt⟩

end EscapeRoom.Level
