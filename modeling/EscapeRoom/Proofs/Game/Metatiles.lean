import EscapeRoom.Game.Room
import EscapeRoom.Proofs.Sections
import EscapeRoom.Proofs.Tileset.Built
import EscapeRoom.Tileset.Blob

/-!
# Looking up metatiles

The records of a tileset blob stand in increasing order of ids, and the game takes the number of a metatile
as the position of its record. Every lookup therefore finds the tile at that position, which is the tile
with that id exactly if the ids leave no gaps.
-/

namespace EscapeRoom

/-- A metatile shows a tile: its characters, its colour mode, its colours and its flags. -/
structure Metatile.Shows (m : Metatile) (t : Tile) : Prop where
  chars : m.chars.map (fun b => (b.toNat : Int)) = t.chars
  colorMode : m.colorMode.toNat = t.colorMode.code
  colors : m.colors.map (fun b => (b.toNat : Int)) = t.colors
  flags : m.flags.toNat = t.flags

/-- No tile looks like the blank metatile, which has one colour in all four places. -/
theorem Metatile.not_shows_blank {t : Tile} (ht : t.Sound) : ¬({} : Metatile).Shows t := by
  intro h
  have hmo : t.colorMode = .single := by
    cases hm : t.colorMode with
    | single => rfl
    | perQuadrant =>
      have := h.colorMode
      rw [hm] at this
      cases this
  have hc := h.colors.trans (ht.single hmo)
  cases congrArg Quad.topRight hc

namespace Tileset

variable {k : Nat} {t : Tile}

/-! The order of the records -/

variable {ts : Tileset}

theorem sortedTiles_perm (ts : Tileset) : ts.sortedTiles.Perm ts.tiles.values :=
  (List.mergeSort_perm _ _).map _

theorem length_sortedTiles (ts : Tileset) : ts.sortedTiles.length = ts.tiles.length := by
  rw [sortedTiles, List.length_map, List.length_mergeSort]

theorem sound_of_mem_values (h : ts.Built) (ht : t ∈ ts.tiles.values) : t.Sound := by
  obtain ⟨e, he, rfl⟩ := List.mem_map.mp ht
  exact (tiles_of_built h e he).2

theorem sortedTiles_increasing (h : ts.Built) : (ts.sortedTiles.map (·.id)).Pairwise (· < ·) := by
  have hp := List.mergeSort_perm ts.tiles fun a b => decide (a.1 ≤ b.1)
  have hk : ts.sortedTiles.map (·.id) = (ts.tiles.mergeSort fun a b => decide (a.1 ≤ b.1)).map (·.1) := by
    rw [sortedTiles, List.map_map]
    exact List.map_congr_left fun e he => (tiles_of_built h e (hp.mem_iff.mp he)).1
  have hs : (ts.tiles.mergeSort fun a b => decide (a.1 ≤ b.1)).Pairwise fun a b =>
      decide (a.1 ≤ b.1) = true := by
    apply List.pairwise_mergeSort
    · intro a b c hab hbc
      rw [decide_eq_true_eq] at hab hbc ⊢
      exact Int.le_trans hab hbc
    · intro a b
      rw [Bool.or_eq_true, decide_eq_true_eq, decide_eq_true_eq]
      exact Int.le_total a.1 b.1
  have hdi : (ts.tiles.mergeSort fun a b => decide (a.1 ≤ b.1)).Pairwise fun a b => a.1 ≠ b.1 :=
    List.pairwise_map.mp ((hp.map Prod.fst).nodup_iff.mpr (nodup_ids_of_built h))
  rw [hk, List.pairwise_map]
  refine (hs.and hdi).imp ?_
  rintro a b ⟨hle, hne⟩
  exact Int.lt_iff_le_and_ne.mpr ⟨of_decide_eq_true hle, hne⟩

/-- Different numbers from zero up to below their count stand at their own positions. -/
theorem eq_of_increasing {ids : List Int} (hids : ids.Pairwise (· < ·)) (hlow : ∀ n ∈ ids, 0 ≤ n)
    (hh : ∀ n ∈ ids, n < ids.length) (hk : k < ids.length) : ids[k] = k := by
  have hs : ∀ i (hi : i + 1 < ids.length), ids[i] < ids[i + 1] := fun i hi =>
    List.pairwise_iff_getElem.mp hids i (i + 1) (by omega) hi (by omega)
  have hge : ∀ i (hi : i < ids.length), (i : Int) ≤ ids[i] := by
    intro i
    induction i with
    | zero => exact fun hi => hlow _ (List.getElem_mem hi)
    | succ i ih =>
      intro hi
      have := ih (by omega)
      have := hs i hi
      omega
  -- From above the bound comes down from the last position, `m` steps behind `i`.
  have hle : ∀ m i (hi : i < ids.length), i + m + 1 = ids.length → ids[i] ≤ (i : Int) := by
    intro m
    induction m with
    | zero =>
      intro i hi he
      have := hh _ (List.getElem_mem hi)
      omega
    | succ m ih =>
      intro i hi he
      have := ih (i + 1) (by omega) (by omega)
      have := hs i (by omega)
      omega
  exact Int.le_antisymm (hle (ids.length - 1 - k) k hk (by omega)) (hge k hk)

theorem id_of_sortedTiles (h : ts.Built) (hh : ∀ t ∈ ts.tiles.values, t.id < ts.tiles.length)
    (ht : ts.sortedTiles[k]? = some t) : t.id = k := by
  obtain ⟨hk, rfl⟩ := List.getElem?_eq_some_iff.mp ht
  have hmem : ∀ n ∈ ts.sortedTiles.map (·.id), ∃ t ∈ ts.tiles.values, t.id = n := by
    intro n hn
    obtain ⟨t, ht, rfl⟩ := List.mem_map.mp hn
    exact ⟨t, (sortedTiles_perm ts).mem_iff.mp ht, rfl⟩
  have hlow : ∀ n ∈ ts.sortedTiles.map (·.id), 0 ≤ n := by
    intro n hn
    obtain ⟨t, ht, rfl⟩ := hmem n hn
    exact (sound_of_mem_values h ht).id.1
  have hb : ∀ n ∈ ts.sortedTiles.map (·.id), n < ((ts.sortedTiles.map (·.id)).length : Int) := by
    intro n hn
    obtain ⟨t, ht, rfl⟩ := hmem n hn
    rw [List.length_map, length_sortedTiles]
    exact hh t ht
  have := eq_of_increasing (sortedTiles_increasing h) hlow hb (k := k)
    (by rw [List.length_map]; exact hk)
  rwa [List.getElem_map] at this

/-! The image of a tileset blob -/

theorem length_tileRecord (t : Tile) : (tileRecord t).length = 12 := rfl

theorem length_blobHeader (ts : Tileset) : (blobHeader ts).length = 17 := rfl

def image (ts : Tileset) : TilesetImage :=
  ⟨Memory.ofBytes ts.blob⟩

theorem blob_holdsAt_header (ts : Tileset) : ts.blob.HoldsAt 0 (blobHeader ts) :=
  (Bytes.holdsAt_self ts.blob).left

theorem blob_holdsAt_record (ht : ts.sortedTiles[k]? = some t) : ts.blob.HoldsAt (17 + 12 * k) (tileRecord t) :=
  (Bytes.holdsAt_self ts.blob).right.record (fun t _ => length_tileRecord t) ht

theorem image_isValid (ts : Tileset) : ts.image.isValid = true := by
  have hm : ts.blob.HoldsAt 0 (Bytes.ofAscii "TSET" ++ [1]) :=
    (blob_holdsAt_header ts).left.left.left.left (p := Bytes.ofAscii "TSET" ++ [1])
  exact beq_iff_eq.mpr (LevelImage.slice_of_holdsAt hm)

theorem image_records (ts : Tileset) : ts.image.records.toNat = 17 :=
  LevelImage.memoryWord_of_holdsAt (n := 17) (blob_holdsAt_header ts).left.left.right

theorem image_tileCount (hc : ts.tiles.length ≤ 255) :
    ts.image.tileCount.toNat = ts.tiles.length := by
  have h : ts.image.tileCount = byteOf ts.tiles.length :=
    LevelImage.read_of_holdsAt (blob_holdsAt_header ts) (i := 7) (by rw [length_blobHeader]; decide)
  rw [h, toNat_byteOf_natCast hc]

theorem image_recordSize (ts : Tileset) : ts.image.recordSize = 12 :=
  LevelImage.read_of_holdsAt (blob_holdsAt_header ts) (i := 8) (by rw [length_blobHeader]; decide)

theorem map_toNat_quad {q : Quad Int} {high : Int} (hh : high ≤ 255)
    (hq : ∀ n ∈ q.toList, 0 ≤ n ∧ n ≤ high) : (q.map byteOf).map (fun b => (b.toNat : Int)) = q := by
  have hb : ∀ n ∈ q.toList, ((byteOf n).toNat : Int) = n := fun n hn =>
    coe_toNat_byteOf_of_range (hq n hn).1 (Int.le_trans (hq n hn).2 hh)
  cases q
  simp only [Quad.toList, List.forall_mem_cons] at hb
  simp only [Quad.map, hb]

theorem shows_of_record (ht : t.Sound) {b : Bytes} {base : Nat} (h : b.HoldsAt base (tileRecord t)) :
    let image : TilesetImage := ⟨Memory.ofBytes b⟩
    Metatile.Shows
      { chars := image.quadAt (base + 1)
        colorMode := image.memory.read (base + 5)
        colors := image.quadAt (base + 6)
        flags := image.memory.word (base + 10) } t := by
  intro image
  have hr : ∀ i < 12, image.memory.read (base + i) = (tileRecord t).getD i 0 := fun i hi =>
    LevelImage.read_of_holdsAt h hi
  have hc : image.quadAt (base + 1) = t.chars.map byteOf := by
    simp only [TilesetImage.quadAt, Nat.add_assoc, Nat.reduceAdd, hr 1 (by decide),
      hr 2 (by decide), hr 3 (by decide), hr 4 (by decide)]
    rfl
  have hco : image.quadAt (base + 6) = t.colors.map byteOf := by
    simp only [TilesetImage.quadAt, Nat.add_assoc, Nat.reduceAdd, hr 6 (by decide),
      hr 7 (by decide), hr 8 (by decide), hr 9 (by decide)]
    rfl
  have hf : (image.memory.word (base + 10)).toNat = t.flags % 65536 :=
    LevelImage.memoryWord_of_holdsAt h.right
  have hcd : t.colorMode.code ≤ 255 := by cases t.colorMode <;> decide
  constructor
  · exact hc ▸ map_toNat_quad (Int.le_refl 255) ht.chars
  · show (image.memory.read (base + 5)).toNat = t.colorMode.code
    rw [hr 5 (by decide)]
    exact toNat_byteOf_natCast hcd
  · exact hco ▸ map_toNat_quad (by decide) ht.colors
  · exact hf.trans (Nat.mod_eq_of_lt (Nat.lt_trans ht.flags (by decide)))

theorem metatile_image (h : ts.Built) (hc : ts.tiles.length ≤ 255) (id : UInt8) :
    (∀ t, ts.sortedTiles[id.toNat]? = some t → (ts.image.metatile id).Shows t) ∧
      (ts.tiles.length ≤ id.toNat → ts.image.metatile id = {}) := by
  have hl := length_sortedTiles ts
  have htc := image_tileCount hc
  have hs := image_recordSize ts
  constructor
  · intro t ht
    have hlt := (List.getElem?_eq_some_iff.mp ht).1
    have hr : ts.image.record? id = some (17 + 12 * id.toNat) := by
      have hle : ¬ts.image.tileCount ≤ id := by
        rw [UInt8.le_iff_toNat_le]
        omega
      simp only [TilesetImage.record?, hs, hle, image_records, decide_false, Bool.false_or]
      simp [Nat.mul_comm]
    have hso := sound_of_mem_values h ((sortedTiles_perm ts).mem_iff.mp (List.mem_of_getElem? ht))
    rw [TilesetImage.metatile, hr]
    exact shows_of_record hso (blob_holdsAt_record ht)
  · intro hge
    have hr : ts.image.record? id = none := by
      have hle : ts.image.tileCount ≤ id := by
        rw [UInt8.le_iff_toNat_le]
        omega
      simp [TilesetImage.record?, hle]
    rw [TilesetImage.metatile, hr]

/-- Looking up an id finds the tile that has it, and the blank metatile if none has. -/
structure FoundById (ts : Tileset) (g : Game) : Prop where
  tile : ∀ t ∈ ts.tiles.values, (g.metatile (UInt8.ofNat t.id.toNat)).Shows t
  other : ∀ id : UInt8, (∀ t ∈ ts.tiles.values, t.id ≠ id.toNat) → g.metatile id = {}

theorem metatile_checkTiles {g : Game} (hhas : g.hasTileset = true) (hi : g.shelf.tileset = ts.image)
    (id : UInt8) : g.checkTiles.metatile id = ts.image.metatile id := by
  have hk : g.checkTiles.hasTileset = true := by
    simp [Game.checkTiles, hhas, hi, image_isValid]
  rw [Game.metatile, if_pos hk]
  exact congrArg (TilesetImage.metatile · id) hi

/-- With the blob of a tileset that was read, a number finds the tile at that position in the order of ids.
So looking up by ids is right exactly if all ids are below the number of tiles. -/
theorem foundById_iff {s : Surroundings} {text : String} {linked : LinkedTileset} {g : Game}
    (hread : (read s text).Yields linked) (hhas : g.hasTileset = true)
    (himage : g.shelf.tileset = linked.toTileset.image) :
    (∀ (id : UInt8) (t : Tile), linked.sortedTiles[id.toNat]? = some t →
      (g.checkTiles.metatile id).Shows t) ∧
    (∀ id : UInt8, linked.tiles.length ≤ id.toNat → g.checkTiles.metatile id = {}) ∧
    (linked.FoundById g.checkTiles ↔ ∀ t ∈ linked.tiles.values, t.id < linked.tiles.length) := by
  obtain ⟨hbuilt, _, hcount⟩ := built_of_read hread
  have hlookup := metatile_checkTiles hhas himage
  have hfound : ∀ (id : UInt8) (t : Tile), linked.sortedTiles[id.toNat]? = some t →
      (g.checkTiles.metatile id).Shows t := by
    intro id t ht
    exact hlookup id ▸ (metatile_image hbuilt hcount id).1 t ht
  have hblank : ∀ id : UInt8, linked.tiles.length ≤ id.toNat → g.checkTiles.metatile id = {} := by
    intro id hid
    exact (hlookup id).trans ((metatile_image hbuilt hcount id).2 hid)
  refine ⟨hfound, hblank, ?_, ?_⟩
  · intro h t ht
    have hsound := sound_of_mem_values hbuilt ht
    have hid := hsound.id
    by_contra hge
    have hnat : (UInt8.ofNat t.id.toNat).toNat = t.id.toNat := toNat_uint8_ofNat (by omega)
    have hshows := h.tile t ht
    rw [hblank _ (by omega)] at hshows
    exact Metatile.not_shows_blank hsound hshows
  · intro hhigh
    have hlength := length_sortedTiles linked.toTileset
    constructor
    · intro t ht
      obtain ⟨k, hk⟩ := List.mem_iff_getElem?.mp ((sortedTiles_perm linked.toTileset).mem_iff.mpr ht)
      have hlt := (List.getElem?_eq_some_iff.mp hk).1
      have hid := id_of_sortedTiles hbuilt hhigh hk
      have hnat : (UInt8.ofNat t.id.toNat).toNat = k := by
        rw [hid, Int.toNat_natCast, toNat_uint8_ofNat (by omega)]
      exact hfound _ t (by rw [hnat]; exact hk)
    · intro id hother
      apply hblank
      by_contra hlt
      obtain ⟨t, ht⟩ : ∃ t, linked.sortedTiles[id.toNat]? = some t :=
        ⟨_, List.getElem?_eq_getElem (by omega)⟩
      have hmem := (sortedTiles_perm linked.toTileset).mem_iff.mp (List.mem_of_getElem? ht)
      exact hother t hmem (id_of_sortedTiles hbuilt hhigh ht)

/-- One tile with the id 1, so that the id 0 is a gap. -/
def gapText : String :=
  "TSET name=gap tileSize=2x2 bgColor=0 mc1Color=1 mc2Color=2
TILES
A id=1 chars=1,2,3,4 color=5 flags=SOLID
END
"

def gapTile : Tile :=
  ⟨1, "A", ⟨1, 2, 3, 4⟩, .single, ⟨5, 0, 0, 0⟩, 1⟩

def gapTileset : LinkedTileset :=
  { name := "gap", declaredCount := 1, multicolor1 := 1, multicolor2 := 2, tiles := [(1, gapTile)]
    names := [("A", 1)] }

def gapPlace : Surroundings where
  path := "gap.tset"
  isFile := fun _ => false

set_option maxRecDepth 10000 in
theorem read_gap : (read gapPlace gapText).Yields gapTileset := by
  decide +kernel

def gapGame : Game :=
  { shelf := { tileset := gapTileset.toTileset.image }, puzzle := .start {}, inventory := .empty }

theorem foundById_iff_gap :
    (∀ (id : UInt8) (t : Tile), gapTileset.sortedTiles[id.toNat]? = some t →
      (gapGame.checkTiles.metatile id).Shows t) ∧
    (∀ id : UInt8, gapTileset.tiles.length ≤ id.toNat → gapGame.checkTiles.metatile id = {}) ∧
    (gapTileset.FoundById gapGame.checkTiles ↔
      ∀ t ∈ gapTileset.tiles.values, t.id < gapTileset.tiles.length) :=
  foundById_iff read_gap rfl rfl

/-- The id of the only tile finds the blank metatile, and the tile is found under an id that no tile has. -/
theorem not_foundById_gap : (read gapPlace gapText).Yields gapTileset ∧ gapGame.hasTileset = true ∧
    gapGame.shelf.tileset = gapTileset.toTileset.image ∧ gapTileset.tiles.values = [gapTile] ∧
    gapGame.checkTiles.metatile 1 = {} ∧
    gapGame.checkTiles.metatile 0 = ⟨⟨1, 2, 3, 4⟩, 0, ⟨5, 0, 0, 0⟩, 1⟩ ∧
    ¬gapTileset.FoundById gapGame.checkTiles := by
  have hblank : gapGame.checkTiles.metatile 1 = {} := by decide +kernel
  refine ⟨read_gap, rfl, rfl, rfl, hblank, by decide +kernel, fun h => ?_⟩
  have hshows : (gapGame.checkTiles.metatile 1).Shows gapTile := h.tile gapTile List.mem_cons_self
  have hflags := hshows.flags
  rw [hblank] at hflags
  cases hflags

end Tileset

end EscapeRoom
