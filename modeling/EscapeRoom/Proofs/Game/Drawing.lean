import EscapeRoom.Proofs.Game.Metatiles
import EscapeRoom.Proofs.Level.RoomImage

/-!
# What is drawn and what is walked into

Drawing a room writes a block of two by two characters for every cell of the map that is shown, and nothing
else. The rows of the map are found with the width that is shown, whereas the cells that keep the player out
are found with the width of the level. For levels that are no wider than the window both are the same.
-/

namespace EscapeRoom

theorem toNat_min_uint8 (a b : UInt8) : (min a b).toNat = min a.toNat b.toNat := by
  by_cases h : a ≤ b
  · have hab := UInt8.le_iff_toNat_le.mp h
    rw [Nat.min_eq_left hab]
    exact congrArg UInt8.toNat (if_pos h)
  · have hab : ¬a.toNat ≤ b.toNat := fun h' => h (UInt8.le_iff_toNat_le.mpr h')
    rw [Nat.min_eq_right (by omega)]
    exact congrArg UInt8.toNat (if_neg h)

theorem toNat_double {n : Nat} (h : n < 128) :
    (UInt8.ofNat n * 2).toNat = 2 * n ∧ (UInt8.ofNat n * 2 + 1).toNat = 2 * n + 1 := by
  have hdo : (UInt8.ofNat n * 2).toNat = 2 * n := by
    rw [UInt8.toNat_mul, toNat_uint8_ofNat (by omega)]
    simp only [UInt8.reduceToNat]
    omega
  refine ⟨hdo, ?_⟩
  rw [UInt8.toNat_add, hdo]
  simp only [UInt8.reduceToNat]
  omega

namespace Game

variable {id : Nat × Nat → UInt8} {mx my : Nat}

/-- The screen is set up: its window covers all forty columns and twenty-five rows. -/
structure HasScreen (g : Game) : Prop where
  ready : g.ready = true
  window : g.mapWindow = { width := 40, height := 25 }
  size : g.screen.size = 1000

/-- The character of a metatile in a column and a row of its block. -/
def blockCell (tile : Metatile) (dx dy : Nat) : Cell :=
  if dy = 0 then
    if dx = 0 then ⟨tile.chars.topLeft, tile.shownColors.topLeft ||| 8⟩
    else ⟨tile.chars.topRight, tile.shownColors.topRight ||| 8⟩
  else if dx = 0 then ⟨tile.chars.bottomLeft, tile.shownColors.bottomLeft ||| 8⟩
  else ⟨tile.chars.bottomRight, tile.shownColors.bottomRight ||| 8⟩

/-- The cell of the map that a cell of the screen belongs to. -/
def mapCell (i : Nat) : Nat × Nat :=
  (i % 40 / 2, i / 80)

variable {g : Game}

theorem poke_pokeAll_eq (g : Game) (a b d : Nat) (v w : UInt8) (values : Bytes) :
    ∃ ram, ((g.poke a v).pokeAll b values).poke d w = { g with ram } :=
  ⟨_, rfl⟩

theorem installCharset_eq (g : Game) : ∃ ram, g.installCharset = { g with ram } := by
  unfold installCharset
  split
  · exact poke_pokeAll_eq g _ _ _ _ _ _
  · exact ⟨g.ram, rfl⟩

theorem initScreen_eq (g : Game) : ∃ colors ram effects,
    g.initScreen =
      { g with ready := true, mapWindow := { width := 40, height := 25 }, colors, ram, effects } := by
  obtain ⟨ram, hram⟩ := installCharset_eq g.openMapWindow
  unfold initScreen
  rw [hram]
  exact ⟨_, _, _, rfl⟩

theorem hasScreen_initScreen (h : g.screen.size = 1000) : g.initScreen.HasScreen := by
  obtain ⟨colors, ram, effects, he⟩ := initScreen_eq g
  rw [he]
  exact ⟨rfl, rfl, h⟩

theorem putChar_eq (hg : g.mapWindow = { width := 40, height := 25 }) (x y char color : UInt8) :
    g.putChar x y char color =
      { g with screen := g.screen.setIfInBounds (y.toNat * 40 + x.toNat) ⟨char, color ||| 8⟩ } := by
  simp [putChar, hg]

def Redrawn (g after : Game) : Prop :=
  ∃ screen, after = { g with screen }

theorem Redrawn.refl (g : Game) : g.Redrawn g :=
  ⟨g.screen, rfl⟩

theorem Redrawn.trans {g₁ g₂ : Game} (h₁ : g.Redrawn g₁) (h₂ : g₁.Redrawn g₂) : g.Redrawn g₂ := by
  obtain ⟨_, rfl⟩ := h₁
  obtain ⟨_, rfl⟩ := h₂
  exact ⟨_, rfl⟩

theorem redrawn_putChar (g : Game) (x y char color : UInt8) : g.Redrawn (g.putChar x y char color) :=
  ⟨_, rfl⟩

theorem redrawn_drawMetatile (g : Game) (mx my id : UInt8) : g.Redrawn (g.drawMetatile mx my id) := by
  unfold drawMetatile
  dsimp only
  split
  · exact .refl g
  · exact (((redrawn_putChar g _ _ _ _).trans (redrawn_putChar _ _ _ _ _)).trans
      (redrawn_putChar _ _ _ _ _)).trans (redrawn_putChar _ _ _ _ _)

theorem redrawn_foldl {α : Type} {draw : Game → α → Game} (hdr : ∀ (g : Game) (a : α), g.Redrawn (draw g a))
    (xs : List α) (g : Game) : g.Redrawn (xs.foldl draw g) := by
  induction xs generalizing g with
  | nil => exact .refl g
  | cons x xs ih => exact (hdr g x).trans (ih _)

theorem redrawn_drawRoom (g : Game) : g.Redrawn g.drawRoom := by
  unfold drawRoom
  split
  · exact .refl g
  · split
    · exact .refl g
    · exact redrawn_foldl (fun g y => redrawn_foldl (fun g x => redrawn_drawMetatile g _ _ _) _ g) _ g

theorem drawMetatile_eq (hg : g.HasScreen) (hx : mx < 20) (hy : my < 12) (id : UInt8) : ∃ screen : Array Cell,
      g.drawMetatile (UInt8.ofNat mx) (UInt8.ofNat my) id = { g with screen } ∧
      screen.size = 1000 ∧
      ∀ i < 1000, screen[i]? =
        if mapCell i = (mx, my) then some (blockCell (g.metatile id) (i % 2) (i / 40 % 2))
        else g.screen[i]? := by
  obtain ⟨hx₀, hx₁⟩ := toNat_double (n := mx) (by omega)
  obtain ⟨hy₀, hy₁⟩ := toNat_double (n := my) (by omega)
  have hf : ¬(!g.ready || g.mapWindow.width ≤ UInt8.ofNat mx * 2 + 1 ||
      g.mapWindow.height ≤ UInt8.ofNat my * 2 + 1) = true := by
    simp only [hg.ready, hg.window, UInt8.le_iff_toNat_le, hx₁, hy₁, UInt8.reduceToNat, Bool.not_true,
      Bool.false_or, Bool.or_eq_true, decide_eq_true_eq]
    omega
  unfold drawMetatile
  dsimp only
  rw [if_neg hf]
  simp only [putChar_eq, hg.window]
  refine ⟨_, rfl, by simp [hg.size], fun i hi => ?_⟩
  simp only [hx₀, hx₁, hy₀, hy₁, Array.getElem?_setIfInBounds, Array.size_setIfInBounds, hg.size,
    mapCell, Prod.mk.injEq, blockCell]
  -- A cell of the screen is one of the four that are written iff it belongs to the cell of the map.
  split_ifs <;> first | rfl | (exfalso; omega)

/-- What drawing leaves of a screen: the blocks of some cells of the map are written, each with the metatile
of its cell, and nothing else changes. -/
structure Painted (g after : Game) (cells : List (Nat × Nat)) (id : Nat × Nat → UInt8) : Prop where
  redrawn : g.Redrawn after
  size : after.screen.size = 1000
  cell : ∀ i < 1000, after.screen[i]? =
    if mapCell i ∈ cells then some (blockCell (g.metatile (id (mapCell i))) (i % 2) (i / 40 % 2))
    else g.screen[i]?

theorem painted_drawMetatile (hg : g.HasScreen) (hx : mx < 20) (hy : my < 12) (id : Nat × Nat → UInt8) :
    g.Painted (g.drawMetatile (UInt8.ofNat mx) (UInt8.ofNat my) (id (mx, my))) [(mx, my)] id := by
  obtain ⟨screen, he, hs, hc⟩ := drawMetatile_eq hg hx hy (id (mx, my))
  rw [he]
  refine ⟨⟨screen, rfl⟩, hs, fun i hi => (hc i hi).trans ?_⟩
  simp only [List.mem_singleton]
  split
  · rename_i h
    rw [h]
  · rfl

theorem Painted.trans {g₁ g₂ : Game} {cells more : List (Nat × Nat)}
    (h₁ : g.Painted g₁ cells id) (h₂ : g₁.Painted g₂ more id) : g.Painted g₂ (cells ++ more) id := by
  have ht : ∀ id, g₁.metatile id = g.metatile id := fun id => by
    obtain ⟨_, rfl⟩ := h₁.redrawn
    rfl
  refine ⟨h₁.redrawn.trans h₂.redrawn, h₂.size, fun i hi => ?_⟩
  rw [h₂.cell i hi, h₁.cell i hi, ht]
  by_cases hm : mapCell i ∈ more
  · simp [hm]
  · simp [hm]

theorem Painted.hasScreen {after : Game} {cells : List (Nat × Nat)}
    (h : g.Painted after cells id) (hg : g.HasScreen) : after.HasScreen := by
  have hs := h.size
  obtain ⟨_, rfl⟩ := h.redrawn
  exact ⟨hg.ready, hg.window, hs⟩

theorem painted_foldl {draw : Game → Nat × Nat → Game} {room : CurrentRoom}
    (hdr : ∀ g' : Game, g'.room = room → ∀ cell : Nat × Nat,
      draw g' cell = g'.drawMetatile (UInt8.ofNat cell.1) (UInt8.ofNat cell.2) (id cell))
    (cells : List (Nat × Nat)) (hg : g.HasScreen) (hr : g.room = room)
    (hc : ∀ cell ∈ cells, cell.1 < 20 ∧ cell.2 < 12) : g.Painted (cells.foldl draw g) cells id := by
  induction cells generalizing g with
  | nil => exact ⟨.refl g, hg.size, fun i _ => by simp⟩
  | cons cell cells ih =>
    rw [List.forall_mem_cons] at hc
    have hf : g.Painted (draw g cell) [cell] id := by
      rw [hdr g hr cell]
      exact painted_drawMetatile hg hc.1.1 hc.1.2 id
    have hr' : (draw g cell).room = room := by
      obtain ⟨_, he⟩ := hf.redrawn
      rw [he]
      exact hr
    exact hf.trans (ih (hf.hasScreen hg) hr' hc.2)

/-- The number of the tile that is drawn for a cell of the current room. -/
def drawnTile (g : Game) (image : LevelImage) (cell : Nat × Nat) : UInt8 :=
  image.mapByte g.room.offsets.map (min g.level.mapWidth 20) (UInt8.ofNat cell.1) (UInt8.ofNat cell.2)

theorem painted_drawRoom (hg : g.HasScreen) {source : LevelChoice} (hs : g.room.mapLevel = some source) :
    g.Painted g.drawRoom
      (Level.positions (min g.level.mapWidth.toNat 20) (min g.level.mapHeight.toNat 12))
      (g.drawnTile (g.shelf.level source)) := by
  have hw : (min g.level.mapWidth (g.mapWindow.width / 2)).toNat = min g.level.mapWidth.toNat 20 := by
    rw [toNat_min_uint8, hg.window]
    rfl
  have hh :
      (min g.level.mapHeight (g.mapWindow.height / 2)).toNat = min g.level.mapHeight.toNat 12 := by
    rw [toNat_min_uint8, hg.window]
    rfl
  have hf : g.drawRoom =
      (Level.positions (min g.level.mapWidth.toNat 20) (min g.level.mapHeight.toNat 12)).foldl
        (fun g' cell => g'.drawMetatile (UInt8.ofNat cell.1) (UInt8.ofNat cell.2)
          ((g.shelf.level source).mapByte g'.room.offsets.map (min g.level.mapWidth 20)
            (UInt8.ofNat cell.1) (UInt8.ofNat cell.2))) g := by
    unfold drawRoom
    simp only [hs, hg.ready, Bool.not_true, Bool.false_eq_true, if_false, hw, hh,
      Level.positions, List.foldl_flatMap, List.foldl_map]
    rw [hg.window]
    rfl
  rw [hf]
  refine painted_foldl (fun g' hr cell => ?_) _ hg (rfl : g.room = g.room) fun cell hc => ?_
  · rw [hr]
    rfl
  · obtain ⟨hx, hy⟩ := Level.mem_positions.mp hc
    omega

/-- The block of a cell of the map shows a metatile: its characters, and its colours with the bit for
multicolour mode. -/
structure ShowsBlock (g : Game) (mx my : Nat) (tile : Metatile) : Prop where
  topLeft : g.screen[2 * my * 40 + 2 * mx]? =
    some ⟨tile.chars.topLeft, tile.shownColors.topLeft ||| 8⟩
  topRight : g.screen[2 * my * 40 + (2 * mx + 1)]? =
    some ⟨tile.chars.topRight, tile.shownColors.topRight ||| 8⟩
  bottomLeft : g.screen[(2 * my + 1) * 40 + 2 * mx]? =
    some ⟨tile.chars.bottomLeft, tile.shownColors.bottomLeft ||| 8⟩
  bottomRight : g.screen[(2 * my + 1) * 40 + (2 * mx + 1)]? =
    some ⟨tile.chars.bottomRight, tile.shownColors.bottomRight ||| 8⟩

theorem Painted.showsBlock {after : Game} {cells : List (Nat × Nat)}
    (h : g.Painted after cells id) (hx : mx < 20) (hy : my < 12) (hmem : (mx, my) ∈ cells) :
    after.ShowsBlock mx my (g.metatile (id (mx, my))) := by
  have hc : ∀ dx < 2, ∀ dy < 2, after.screen[(2 * my + dy) * 40 + (2 * mx + dx)]? =
      some (blockCell (g.metatile (id (mx, my))) dx dy) := by
    intro dx hdx dy hdy
    have hmap : mapCell ((2 * my + dy) * 40 + (2 * mx + dx)) = (mx, my) := by
      rw [mapCell, Prod.mk.injEq]
      omega
    have hdx' : ((2 * my + dy) * 40 + (2 * mx + dx)) % 2 = dx := by omega
    have hdy' : ((2 * my + dy) * 40 + (2 * mx + dx)) / 40 % 2 = dy := by omega
    rw [h.cell _ (by omega), hmap, if_pos hmem, hdx', hdy']
  exact ⟨hc 0 (by decide) 0 (by decide), hc 1 (by decide) 0 (by decide),
    hc 0 (by decide) 1 (by decide), hc 1 (by decide) 1 (by decide)⟩

/-- A room as it is drawn and as it is walked in, by its tile ids. A cell is drawn with the rows as long as
they are shown, and it keeps the player out with the rows as long as they are. -/
structure DrawsRoom (level : Level) (ids : List Int) (g after : Game) : Prop where
  redrawn : g.Redrawn after
  block : ∀ mx my, mx < min level.width.toNat 20 → my < min level.height.toNat 12 →
    ∃ id, ids[my * min level.width.toNat 20 + mx]? = some id ∧
      after.ShowsBlock mx my (g.metatile (byteOf id))
  other : ∀ i, ¬((mapCell i).1 < min level.width.toNat 20 ∧ (mapCell i).2 < min level.height.toNat 12) →
    after.screen[i]? = g.screen[i]?
  solid : ∀ mx my, mx < level.width.toNat → my < level.height.toNat →
    ∃ id, ids[my * level.width.toNat + mx]? = some id ∧
      after.isSolid (UInt8.ofNat mx) (UInt8.ofNat my) = (g.metatile (byteOf id)).isSolid

/-- What is drawn is what is walked into: every block shows the metatile that decides whether its cell keeps
the player out. -/
def ShowsWalked (level : Level) (ids : List Int) (g after : Game) : Prop :=
  ∀ mx my, mx < min level.width.toNat 20 → my < min level.height.toNat 12 →
    ∃ id, ids[my * level.width.toNat + mx]? = some id ∧ after.ShowsBlock mx my (g.metatile (byteOf id)) ∧
      after.isSolid (UInt8.ofNat mx) (UInt8.ofNat my) = (g.metatile (byteOf id)).isSolid

theorem isSolid_eq (hs : g.room.mapLevel = some g.choice) {x y : UInt8}
    (hx : x.toNat < g.level.mapWidth.toNat) (hy : y.toNat < g.level.mapHeight.toNat) :
    g.isSolid x y = (g.metatile (g.level.memory.read
      (g.room.offsets.map.toNat + (y.toNat * g.level.mapWidth.toNat + x.toNat)))).isSolid := by
  have hi : ¬(g.level.mapWidth ≤ x || g.level.mapHeight ≤ y) = true := by
    simp only [UInt8.le_iff_toNat_le, Bool.or_eq_true, decide_eq_true_eq]
    omega
  unfold isSolid
  simp only [hs, if_neg hi]
  rfl

section

open Level

variable {level : Level} {c : Compiled}

theorem loadRoom_level (g : Game) (r spawn : UInt8) : (g.loadRoom r spawn).level = g.level := rfl

theorem drawsRoom_of_readMap (hs : Stands level c) (hw : InByte level.width) (hh : InByte level.height)
    (hg : g.HasScreen) (hl : g.level = c.image) {r : Nat} {room : Room} {ids : List Int}
    (hids : TileIds level room ids)
    (hr : ∀ (k : Nat) (id : Int), ids[k]? = some id →
      c.image.memory.read ((c.image.roomOffsets (UInt8.ofNat r)).map.toNat + k) = byteOf id)
    (spawn : UInt8) :
    DrawsRoom level ids (g.loadRoom (UInt8.ofNat r) spawn)
      (g.loadRoom (UInt8.ofNat r) spawn).drawRoom := by
  have hwi := hs.toNat_mapWidth hw
  have hhe := hs.toNat_mapHeight hh
  have hlo : (g.loadRoom (UInt8.ofNat r) spawn).HasScreen := ⟨hg.ready, hg.window, hg.size⟩
  have hp := painted_drawRoom hlo rfl
  rw [loadRoom_level, hl, hwi, hhe,
    show (g.loadRoom (UInt8.ofNat r) spawn).shelf.level g.choice = c.image from hl] at hp
  refine ⟨hp.redrawn, ?_, ?_, ?_⟩
  · intro mx my hx hy
    obtain ⟨id, hid⟩ :=
      hids.exists_getElem? hx (Nat.lt_of_lt_of_le hy (Nat.min_le_left _ _)) (Nat.min_le_left _ _)
    refine ⟨id, hid, ?_⟩
    have ht : (g.loadRoom (UInt8.ofNat r) spawn).drawnTile c.image (mx, my) = byteOf id := by
      have hsh : (min c.image.mapWidth 20).toNat = min level.width.toNat 20 := by
        rw [toNat_min_uint8, hwi]
        rfl
      rw [drawnTile, loadRoom_level, hl, LevelImage.mapByte, hsh, toNat_uint8_ofNat (by omega),
        toNat_uint8_ofNat (by omega), ← hr _ id hid, ← hl]
      rfl
    exact ht ▸ hp.showsBlock (by omega) (by omega) (mem_positions.mpr ⟨hx, hy⟩)
  · intro i hi
    by_cases hlt : i < 1000
    · rw [hp.cell i hlt, if_neg fun hmem => hi (mem_positions.mp hmem)]
    · rw [Array.getElem?_eq_none (by rw [hp.size]; omega),
        Array.getElem?_eq_none (by rw [hlo.size]; omega)]
  · intro mx my hx hy
    obtain ⟨id, hid⟩ := hids.exists_getElem? hx hy (Nat.le_refl _)
    have hx' : (UInt8.ofNat mx).toNat = mx := toNat_uint8_ofNat (by have := hw.2; omega)
    have hy' : (UInt8.ofNat my).toNat = my := toNat_uint8_ofNat (by have := hh.2; omega)
    refine ⟨id, hid, ?_⟩
    obtain ⟨_, he⟩ := hp.redrawn
    rw [he]
    refine (isSolid_eq (g := g.loadRoom (UInt8.ofNat r) spawn) rfl ?_ ?_).trans ?_
    · rwa [loadRoom_level, hl, hx', hwi]
    · rwa [loadRoom_level, hl, hy', hhe]
    · rw [loadRoom_level, hl, hx', hy', hwi, ← hr _ id hid, ← hl]
      rfl

/-- Drawing a room of a compiled level writes the blocks of the cells that are shown and nothing else. The
rows are taken to be as long as they are shown, so that what is drawn is what is walked into if the level is
not wider than the window. -/
theorem drawsRoom_of_compile (h : level.compile.Yields c) (hw : InByte level.width)
    (hh : InByte level.height) (hg : g.HasScreen) (hlevel : g.level = c.image) {r : Nat} {room : Room}
    (hr : r < 256) (hroom : level.rooms.values[r]? = some room) (spawn : UInt8) :
    ∃ ids, TileIds level room ids ∧
      DrawsRoom level ids (g.loadRoom (UInt8.ofNat r) spawn)
        (g.loadRoom (UInt8.ofNat r) spawn).drawRoom ∧
      (level.width ≤ 20 → ShowsWalked level ids (g.loadRoom (UInt8.ofNat r) spawn)
        (g.loadRoom (UInt8.ofNat r) spawn).drawRoom) := by
  have hs := stands_of_compile h
  obtain ⟨ids, hids, hread⟩ := hs.readMap hr hroom
  have hdraws := drawsRoom_of_readMap hs hw hh hg hlevel hids hread spawn
  refine ⟨ids, hids, hdraws, fun hnarrow mx my hx hy => ?_⟩
  have hmin : min level.width.toNat 20 = level.width.toNat := Nat.min_eq_left (by omega)
  obtain ⟨drawn, hdrawn, hblock⟩ := hdraws.block mx my hx hy
  obtain ⟨hit, hhit, hsolid⟩ := hdraws.solid mx my (by omega) (by omega)
  rw [hmin, hhit, Option.some.injEq] at hdrawn
  subst hdrawn
  exact ⟨hit, hhit, hblock, hsolid⟩

end

/-- A level that is one column wider than the window, with a wall in the last column of its first row. -/
def corridor : Level where
  name := "corridor"
  width := 21
  height := 2
  startRoom := "R"
  startSpawn := "S"
  line := 1
  tiles := [(".", 0), ("#", 1)]
  rooms :=
    [("R", { id := "R", name := "R", line := 6, spawns := [("S", ⟨0, 0, 8⟩)]
             map := [(11, "....................#"), (12, ".....................")] })]

def corridorTiles : Tileset :=
  { name := "two", declaredCount := 2, multicolor1 := 1, multicolor2 := 2
    tiles :=
      [(0, ⟨0, "FLOOR", ⟨1, 2, 3, 4⟩, .single, ⟨5, 0, 0, 0⟩, 0⟩),
       (1, ⟨1, "WALL", ⟨5, 6, 7, 8⟩, .perQuadrant, ⟨1, 2, 3, 4⟩, 1⟩)] }

theorem corridorTiles_image : corridorTiles.image =
    ⟨Memory.ofBytes (corridorTiles.blobHeader ++ corridorTiles.tiles.values.flatMap Tileset.tileRecord)⟩ := by
  have hs : corridorTiles.sortedTiles = corridorTiles.tiles.values := by
    rw [Tileset.sortedTiles, List.mergeSort_of_pairwise (by decide)]
    rfl
  rw [Tileset.image, Tileset.blob, hs]

def corridorGame (image : LevelImage) : Game :=
  Game.initScreen
    { shelf := { boot := image, tileset := corridorTiles.image }, puzzle := .start {}, inventory := .empty }

theorem corridorGame_level (image : LevelImage) : (corridorGame image).level = image := by
  obtain ⟨colors, ram, effects, he⟩ := initScreen_eq
    { shelf := { boot := image, tileset := corridorTiles.image }, puzzle := .start {}, inventory := .empty }
  rw [corridorGame, he]
  rfl

theorem corridorGame_hasScreen (image : LevelImage) : (corridorGame image).HasScreen :=
  hasScreen_initScreen Array.size_replicate

/-- The map bytes at which the drawn and the walked cell of the second row differ. -/
theorem corridor_compiled : ∃ c, corridor.compile.Yields c ∧
    c.image.memory.read ((c.image.roomOffsets 0).map.toNat + 20) = 1 ∧
    c.image.memory.read ((c.image.roomOffsets 0).map.toNat + 21) = 0 := by
  have hch : corridor.compile.endsWith (fun c =>
      decide (c.image.memory.read ((c.image.roomOffsets 0).map.toNat + 20) = 1 ∧
        c.image.memory.read ((c.image.roomOffsets 0).map.toNat + 21) = 0)) = true := by
    decide +kernel
  obtain ⟨c, hc, hb⟩ := Report.exists_yields_of_endsWith hch
  exact ⟨c, hc, of_decide_eq_true hb⟩

theorem corridorGame_metatile (image : LevelImage) (id : UInt8) :
    (corridorGame image).metatile id = corridorTiles.image.metatile id := by
  obtain ⟨colors, ram, effects, he⟩ := initScreen_eq
    { shelf := { boot := image, tileset := corridorTiles.image }, puzzle := .start {}, inventory := .empty }
  rw [corridorGame, he]
  rfl

theorem drawsRoom_of_compile_cellar : ∃ c ids, Level.cellar.compile.Yields c ∧
    DrawsRoom Level.cellar ids ((corridorGame c.image).loadRoom 1 0)
      ((corridorGame c.image).loadRoom 1 0).drawRoom ∧
    ShowsWalked Level.cellar ids ((corridorGame c.image).loadRoom 1 0)
      ((corridorGame c.image).loadRoom 1 0).drawRoom := by
  have hcheck : Level.cellar.compile.endsWith (fun _ => true) = true := by decide +kernel
  obtain ⟨c, hc, _⟩ := Report.exists_yields_of_endsWith hcheck
  obtain ⟨ids, _, hdraws, hwalked⟩ := drawsRoom_of_compile hc (by decide) (by decide)
    (corridorGame_hasScreen c.image) (corridorGame_level c.image) (r := 1) (by decide) rfl 0
  rw [show UInt8.ofNat 1 = 1 from rfl] at hdraws hwalked
  exact ⟨c, ids, hc, hdraws, hwalked (by decide)⟩

/-- The wall is drawn at the beginning of the second row, where the player can walk. -/
theorem not_showsWalked_corridor : ∃ c ids, corridor.compile.Yields c ∧
    (∀ room ∈ corridor.rooms.values, Level.TileIds corridor room ids) ∧
    ((corridorGame c.image).loadRoom 0 0).drawRoom.ShowsBlock 0 1
      ⟨⟨5, 6, 7, 8⟩, 1, ⟨1, 2, 3, 4⟩, 1⟩ ∧
    ((corridorGame c.image).loadRoom 0 0).drawRoom.isSolid 0 1 = false ∧
    ¬ShowsWalked corridor ids ((corridorGame c.image).loadRoom 0 0)
      ((corridorGame c.image).loadRoom 0 0).drawRoom := by
  obtain ⟨c, hc, hwall, hfloor⟩ := corridor_compiled
  have hs := Level.stands_of_compile hc
  obtain ⟨ids, hids, hread⟩ := hs.readMap (r := 0) (by decide) rfl
  have hdraws : DrawsRoom corridor ids ((corridorGame c.image).loadRoom 0 0)
      ((corridorGame c.image).loadRoom 0 0).drawRoom :=
    drawsRoom_of_readMap hs (by decide) (by decide) (corridorGame_hasScreen c.image)
      (corridorGame_level c.image) hids hread 0
  have hmetatile : ∀ id, ((corridorGame c.image).loadRoom 0 0).metatile id =
      corridorTiles.image.metatile id := corridorGame_metatile c.image
  obtain ⟨drawn, hdrawn, hblock⟩ := hdraws.block 0 1 (by decide) (by decide)
  obtain ⟨hit, hhit, hsolid⟩ := hdraws.solid 0 1 (by decide) (by decide)
  have hdrawn' : byteOf drawn = 1 := (hread 20 drawn hdrawn).symm.trans hwall
  have hhit' : byteOf hit = 0 := (hread 21 hit hhit).symm.trans hfloor
  have hwallTile : corridorTiles.image.metatile 1 = ⟨⟨5, 6, 7, 8⟩, 1, ⟨1, 2, 3, 4⟩, 1⟩ := by
    rw [corridorTiles_image]
    decide +kernel
  have hfloorTile : corridorTiles.image.metatile 0 = ⟨⟨1, 2, 3, 4⟩, 0, ⟨5, 0, 0, 0⟩, 0⟩ := by
    rw [corridorTiles_image]
    decide +kernel
  rw [hmetatile, hdrawn', hwallTile] at hblock
  rw [hmetatile, hhit', hfloorTile] at hsolid
  refine ⟨c, ids, hc, by simpa [corridor, Table.values] using hids, hblock, hsolid, fun hwalked => ?_⟩
  obtain ⟨id, hid, hshown, _⟩ := hwalked 0 1 (by decide) (by decide)
  obtain rfl : id = hit := Option.some.inj (hid.symm.trans hhit)
  rw [hmetatile, hhit', hfloorTile] at hshown
  have htopLeft := hblock.topLeft.symm.trans hshown.topLeft
  revert htopLeft
  decide

end Game

end EscapeRoom
