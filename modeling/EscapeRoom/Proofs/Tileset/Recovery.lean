import EscapeRoom.Proofs.Game.Metatiles
import EscapeRoom.Proofs.Tileset.Results

/-!
# Recovering a tileset from its blob

A blob stores every number of a tileset in one or two bytes. Reading a text without an issue leaves only numbers that
fit, so that nothing is cut off: the header tells the number of tiles and the shared colours, and the records tell the
tiles with all but their names, in increasing order of ids.
-/

namespace EscapeRoom

structure TileFields where
  id : Int
  chars : Quad Int
  mode : Nat
  colors : Quad Int
  flags : Nat
  deriving Repr, DecidableEq

def Tile.fields (t : Tile) : TileFields :=
  ⟨t.id, t.chars, t.colorMode.code, t.colors, t.flags⟩

namespace TilesetImage

def fieldsAt (t : TilesetImage) (base : Nat) : TileFields :=
  { id := (t.memory.read base).toNat
    chars := (t.quadAt (base + 1)).map fun b => (b.toNat : Int)
    mode := (t.memory.read (base + 5)).toNat
    colors := (t.quadAt (base + 6)).map fun b => (b.toNat : Int)
    flags := (t.memory.word (base + 10)).toNat }

/-- All records, found by the numbers of the header alone. -/
def table (t : TilesetImage) : List TileFields :=
  (List.range t.tileCount.toNat).map fun k => t.fieldsAt (t.records.toNat + k * t.recordSize.toNat)

/-- What the header of an image tells about a tileset. -/
structure Describes (t : TilesetImage) (ts : Tileset) : Prop where
  valid : t.isValid = true
  width : t.memory.read 5 = 2
  height : t.memory.read 6 = 2
  count : t.tileCount.toNat = ts.tiles.length
  recordSize : t.recordSize.toNat = 12
  records : t.records.toNat = 17
  background : (t.background.toNat : Int) = ts.background
  multicolor1 : (t.multicolor1.toNat : Int) = ts.multicolor1
  multicolor2 : (t.multicolor2.toNat : Int) = ts.multicolor2

end TilesetImage

namespace Tileset

variable {ts : Tileset} {s : Surroundings} {text : String} {linked : LinkedTileset}

/-- The header of a tileset that is read without an issue was checked when it was read. -/
theorem headed_of_read (h : (read s text).Yields linked) : linked.toTileset.Headed := by
  simp only [read, Report.yields_bind, Report.yields_pure] at h
  obtain ⟨p, hp, _, hc, _, _, linked', hl, _, _, rfl⟩ := h
  obtain ⟨ts, hts, _, _, _, rfl⟩ := checkCount_checks hc
  have hs : linked'.toTileset = { ts with declaredCount := tileLimit ts } := toTileset_of_links hl
  obtain ⟨hsi, hco⟩ := (orderly_readLines rfl hp).headed ts hts
  rw [hs]
  exact ⟨hsi, hco⟩

theorem length_blob (ts : Tileset) : ts.blob.length = 17 + 12 * ts.tiles.length := by
  rw [blob, List.length_append, length_blobHeader,
    Bytes.length_flatMap_const fun t _ => length_tileRecord t, length_sortedTiles]

theorem image_describes (h : ts.Headed) (hc : ts.tiles.length ≤ 255) : ts.image.Describes ts := by
  have hr : ∀ i < 17, ts.image.memory.read i = (blobHeader ts).getD i 0 := by
    intro i hi
    have hh := LevelImage.read_of_holdsAt (blob_holdsAt_header ts) (i := i) hi
    rwa [Nat.zero_add] at hh
  have hco := h.colors
  simp only [List.forall_mem_cons] at hco
  obtain ⟨hb, hmulticolor1, hmulticolor2, -⟩ := hco
  have hf : ∀ {n : Int}, 0 ≤ n ∧ n ≤ 15 → ((byteOf n).toNat : Int) = n := fun hn =>
    coe_toNat_byteOf_of_range hn.1 (Int.le_trans hn.2 (by decide))
  refine ⟨image_isValid ts, ?_, ?_, image_tileCount hc, congrArg UInt8.toNat (image_recordSize ts),
    image_records ts, ?_, ?_, ?_⟩
  · rw [hr 5 (by decide)]
    exact congrArg byteOf h.size.1
  · rw [hr 6 (by decide)]
    exact congrArg byteOf h.size.2
  · rw [TilesetImage.background, hr 13 (by decide)]
    exact hf hb
  · rw [TilesetImage.multicolor1, hr 14 (by decide)]
    exact hf hmulticolor1
  · rw [TilesetImage.multicolor2, hr 15 (by decide)]
    exact hf hmulticolor2

/-- The record at a position is that of the tile at this position in the order of ids. -/
theorem fieldsAt_image (h : ts.Built) {k : Nat} {t : Tile} (ht : ts.sortedTiles[k]? = some t) :
    ts.image.fieldsAt (17 + 12 * k) = t.fields := by
  have hs := sound_of_mem_values h ((sortedTiles_perm ts).mem_iff.mp (List.mem_of_getElem? ht))
  have hr := blob_holdsAt_record ht
  obtain ⟨hc, hm, hco, hf⟩ := shows_of_record hs hr
  have hid : ((ts.image.memory.read (17 + 12 * k)).toNat : Int) = t.id := by
    have hre : ts.image.memory.read (17 + 12 * k + 0) = byteOf t.id :=
      LevelImage.read_of_holdsAt hr (by rw [length_tileRecord]; decide)
    rw [← Nat.add_zero (17 + 12 * k), hre]
    exact coe_toNat_byteOf_of_range hs.id.1 hs.id.2
  rw [TilesetImage.fieldsAt, Tile.fields, TileFields.mk.injEq]
  exact ⟨hid, hc, hm, hco, hf⟩

theorem table_image (h : ts.Built) (hde : ts.image.Describes ts) :
    ts.image.table = ts.sortedTiles.map Tile.fields := by
  refine List.ext_getElem (by simp [TilesetImage.table, hde.count, length_sortedTiles]) fun k hk hk' => ?_
  have hk : k < ts.sortedTiles.length := by rwa [List.length_map] at hk'
  have hr := fieldsAt_image h (List.getElem?_eq_getElem hk)
  simp only [TilesetImage.table, List.getElem_map, List.getElem_range, hde.records, hde.recordSize]
  rw [Nat.mul_comm k 12, hr]

/-- From the blob of a tileset that was read without an issue the header and all tiles are read back: every record is
that of its tile, ids increase from record to record, and no tile is missing. -/
theorem recovered_of_read (h : (read s text).Yields linked) :
    linked.blob.length = 17 + 12 * linked.tiles.length ∧
      linked.image.Describes linked.toTileset ∧
      (∀ (k : Nat) (t : Tile), linked.sortedTiles[k]? = some t → linked.image.fieldsAt (17 + 12 * k) = t.fields) ∧
      (linked.sortedTiles.map (·.id)).Pairwise (· < ·) ∧
      linked.sortedTiles.Perm linked.tiles.values ∧
      linked.image.table = linked.sortedTiles.map Tile.fields := by
  obtain ⟨hbuilt, _, hcount⟩ := built_of_read h
  have hdescribes := image_describes (headed_of_read h) hcount
  exact ⟨length_blob _, hdescribes, fun k t ht => fieldsAt_image hbuilt ht, sortedTiles_increasing hbuilt,
    sortedTiles_perm _, table_image hbuilt hdescribes⟩

def crossedText : String :=
  "TSET name=x tileSize=2x2 bgColor=6 mc1Color=0 mc2Color=15
TILES
A id=200 chars=255,2,3,4 colors=5,0,9,15
B id=7 chars=1,0,0,9 color=3 flags=HAZARD
"

def largeTile : Tile :=
  ⟨200, "A", ⟨255, 2, 3, 4⟩, .perQuadrant, ⟨5, 0, 9, 15⟩, 0⟩

def smallTile : Tile :=
  ⟨7, "B", ⟨1, 0, 0, 9⟩, .single, ⟨3, 0, 0, 0⟩, 128⟩

def crossedTileset : LinkedTileset :=
  { name := "x", declaredCount := 2, background := 6, multicolor2 := 15
    tiles := [(200, largeTile), (7, smallTile)], names := [("A", 200), ("B", 7)] }

set_option maxRecDepth 10000 in
theorem read_crossed : (read gapPlace crossedText).Yields crossedTileset := by
  decide +kernel

theorem recovered_of_read_crossed :
    (read gapPlace crossedText).Yields crossedTileset ∧ crossedTileset.blob.length = 41 ∧
      crossedTileset.image.table = [smallTile.fields, largeTile.fields] := by
  obtain ⟨hlength, _, _, _, _, htable⟩ := recovered_of_read read_crossed
  have hsorted : crossedTileset.sortedTiles = [smallTile, largeTile] := by
    simp [sortedTiles, crossedTileset, List.mergeSort, List.MergeSort.Internal.splitInTwo]
  exact ⟨read_crossed, hlength, by rw [htable, hsorted]; rfl⟩

end Tileset

end EscapeRoom
