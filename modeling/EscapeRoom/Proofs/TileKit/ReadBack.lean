import EscapeRoom.Proofs.TileKit.Blank

/-!
# Reading a kit's tileset back

The tiles of a kit's tileset are numbered by the order of their lines, and the map of the picture names tiles by these
numbers. If the tileset is read without an issue, the tiles that are read are those that the kit lists, in their order
and with their characters, colours and flags, and every byte of the map is the id of the nearest tile. For this no tile
may be named like a section, and no flag may have a quote or a semicolon in it.
-/

namespace EscapeRoom

namespace TileKit

open Tileset Report

/-! ### Lines that leave the tiles as they are -/

/-- The tiles that were read, their names and the next number are as before. -/
def KeepsTiles (p p' : Progress) : Prop :=
  p'.tileset = p.tileset ∧ p'.names = p.names ∧ p'.nextId = p.nextId

section Lines

variable {place : Surroundings} {p p' : Progress} {ts : Tileset} {lines : List Line}

theorem keepsTiles_of_outline {part : Option Part} (h : outline p' = { outline p with part }) : KeepsTiles p p' :=
  ⟨congrArg Outline.tileset h, congrArg Outline.names h, congrArg Outline.nextId h⟩

theorem keepsTiles_of_lines (hts : p.tileset = some ts)
    (hl : ∀ line ∈ lines, ∀ q q', q.tileset = some ts → (readLine line fullDialect place q).Yields q' → KeepsTiles q q')
    (h : (lines.foldlM (fun p line => readLine line fullDialect place p) p).Yields p') : KeepsTiles p p' := by
  refine Report.Yields.foldlM_induction (P := fun _ q => KeepsTiles p q) h ⟨rfl, rfl, rfl⟩ ?_
  rintro done line rest q q' hs ⟨hq, hn, hid⟩ hst
  obtain ⟨ht, hn', hid'⟩ := hl line (by simp [hs]) q q' (hq.trans hts) hst
  exact ⟨ht.trans hq, hn'.trans hn, hid'.trans hid⟩

theorem keepsTiles_of_objectLines {l : Listing} (hl : l.Sound) (hts : p.tileset = some ts)
    (hli : lines.map Line.text = l.objectLines)
    (h : (lines.foldlM (fun p line => readLine line fullDialect place p) p).Yields p') : KeepsTiles p p' := by
  refine keepsTiles_of_lines hts (fun line hln q q' hq hs => ?_) h
  have ht : line.text ∈ l.objectLines := hli ▸ List.mem_map_of_mem hln
  rw [Listing.objectLines] at ht
  split at ht
  · cases ht
  simp only [List.mem_cons, List.mem_append, List.mem_map, List.not_mem_nil, or_false] at ht
  rcases ht with ho | ⟨e, he, hob⟩ | hend
  · exact keepsTiles_of_outline ((exact_section rfl ⟨by decide, by decide⟩ (by decide) rfl hq ho).sound q' hs).2
  · exact tiles_of_objectText (hl.whole he) hq hob.symm hs
  · exact keepsTiles_of_outline ((exact_end rfl hend).sound q' hs).2

end Lines

/-! ### The tiles that are read -/

section Reading

variable {place : Surroundings} {l : Listing} {c : Charset} {s : SharedColors} {name charset : String}

theorem tileset_of_lines {lines : List Line} {q : Progress} (hh : IsHeader name charset s) (hl : l.Sound)
    (ht : ∀ t ∈ l.tiles, Listing.Legible c t) (hw : ∀ t ∈ l.tiles, t.name ∉ sectionWords)
    (hli : lines.map Line.text = l.lines name charset s c) (h : (readLines fullDialect place lines).Yields q) :
    q.tileset = some { headerTileset name charset s with tiles := numbered c l.tiles } := by
  rw [l.lines_eq] at hli
  obtain ⟨head, tail, rfl, hhe, hta⟩ := List.map_eq_append_iff.mp hli
  obtain ⟨objects, tiles, rfl, ho, htl⟩ := List.map_eq_append_iff.mp hta
  simp only [readLines, List.foldlM_append, yields_bind] at h
  obtain ⟨p₁, h₁, p₂, h₂, h₃⟩ := h
  obtain ⟨-, hp₁⟩ := (reads_headLines hh hl head {} hhe rfl).sound p₁ h₁
  have hts₁ : p₁.tileset = some (headerTileset name charset s) := congrArg Outline.tileset hp₁
  obtain ⟨hts₂, hn, hid⟩ := keepsTiles_of_objectLines hl hts₁ ho h₂
  have hn : p₂.names = [] := hn.trans (congrArg Outline.names hp₁)
  have hid : p₂.nextId = 0 := hid.trans (congrArg Outline.nextId hp₁)
  have hr : Reads place (l.tileLines c) (outline p₂) _ _ := reads_tileLines ht hw (hts₂.trans hts₁) rfl hn hid
  exact congrArg Outline.tileset ((hr tiles p₂ htl rfl).sound q h₃).2

/-- The tileset that is read is the one that is known when all lines are read, with its number of tiles. -/
theorem tileset_of_read {text : String} {ts : LinkedTileset} (h : (Tileset.read place text).Yields ts) :
    ∃ q known, (readLines fullDialect place (sourceLines text)).Yields q ∧ q.tileset = some known ∧
      ts.toTileset = { known with declaredCount := tileLimit known } := by
  simp only [Tileset.read, yields_bind, yields_pure] at h
  obtain ⟨q, hq, _, hc, _, _, linked, hl, _, _, rfl⟩ := h
  obtain ⟨known, hk, _, _, _, rfl⟩ := checkCount_checks hc
  exact ⟨q, known, hq, hk, toTileset_of_links hl⟩

/-- A tileset that is read from the lines of a kit has the listed tiles under their numbers, and the shared colours. -/
theorem tiles_of_read {text : String} {ts : LinkedTileset} (hh : IsHeader name charset s) (hl : l.Sound)
    (ht : ∀ t ∈ l.tiles, Listing.Legible c t) (hw : ∀ t ∈ l.tiles, t.name ∉ sectionWords)
    (hli : (sourceLines text).map Line.text = l.lines name charset s c) (h : (Tileset.read place text).Yields ts) :
    ts.tiles = numbered c l.tiles ∧ ts.background = s.background ∧ ts.multicolor1 = s.multicolor1 ∧
      ts.multicolor2 = s.multicolor2 := by
  obtain ⟨q, known, hq, hk, hs⟩ := tileset_of_read h
  have hr := tileset_of_lines hh hl ht hw hli hq
  obtain rfl := Option.some.inj (hr.symm.trans hk)
  exact ⟨congrArg Tileset.tiles hs, congrArg Tileset.background hs, congrArg Tileset.multicolor1 hs,
    congrArg Tileset.multicolor2 hs⟩

/-- The line of a tile that is named like a section is taken for the beginning of this section. -/
theorem reads_hiddenTile {t : KitTile} {part : Part} {o : Outline} {ts : Tileset} (ht : Listing.Legible c t)
    (hpa : partNamed? t.name = some part) (hts : o.tileset = some ts) :
    Reads place [Listing.tileText c t] o True { o with part := some part } := by
  refine .line fun line p hl hp => ?_
  have hte : line.text = Text.join " " (t.name :: (Listing.tilePieces c t).map Piece.text) := hl
  have hend : line.text ≠ "END" := ne_end_of_join (by simp [Listing.tilePieces]) hte
  have hf : firstWord line = t.name := firstWord_join ht.sound.name.isWord hte
  subst hp
  refine .of_yields_iff (b := { p with part := some part }) (fun p' => ?_) rfl
  rw [readLine_section hend (hf ▸ hpa) hts, true_and]

/-- If the first tile is named like the section of the tiles, the tileset is read without it. -/
theorem exact_read_hidden (place : Surroundings) {text : String} {t : KitTile} {tiles : List KitTile}
    (hh : IsHeader name charset s) (hl : l.Sound)
    (hle : ∀ t ∈ l.tiles, Listing.Legible c t) (hg : l.groups = []) (hli : l.tiles = t :: tiles)
    (ht : t.name = "TILES") (hw : ∀ u ∈ tiles, u.name ∉ sectionWords) (hs : tiles ≠ [])
    (hln : (sourceLines text).map Line.text = l.lines name charset s c) :
    (Tileset.read place text).Exact (place.isFile (place.charsetPath charset) = true ∧ l.symbols.length ≤ 71 ∧
        Numberable tiles ∧ tiles.length ≤ 255 ∧ Bindable (tileKeys tiles) [] (l.symbols.map nameKey))
      fun ts => ts.tiles = numbered c tiles := by
  have hte : l.lines name charset s c = l.headLines name charset s ++ (["TILES"] ++ ([Listing.tileText c t] ++
      (tiles.map (Listing.tileText c) ++ (["END"] ++ ["END"])))) := by
    simp [l.lines_eq, Listing.objectLines, hg, Listing.tileLines, hli]
  rw [hli, List.forall_mem_cons] at hle
  have hse : partNamed? "TILES" = some .tiles := rfl
  have hr : Reads place _ (outline {}) _ (outlineOf (headerTileset name charset s) c l.entries [] tiles) :=
    (reads_headLines hh hl).append (.append (reads_section hse rfl)
      (.append (reads_hiddenTile hle.1 (ht ▸ hse) rfl)
        (.append (reads_tiles hle.2 hw rfl rfl rfl rfl rfl) (.append reads_end reads_end))))
  have hlr := hr (sourceLines text) {} (hln.trans hte) rfl
  have hwh := hlr.bind fun p hc hp =>
    exact_rest place rfl hs (by simp) (fun _ => by simp) (l.fst_entries ▸ hc.1.2) hp
  refine (hwh.congr ?_ fun _ _ h => h).with_post fun ts hts => ?_
  · rw [l.map_nameKey_entries, nodup_picks_iff]
    simp only [true_and, and_true, List.not_mem_nil, false_implies, implies_true, List.map_nil, and_assoc]
  · obtain ⟨q, known, hq, hk, hsa⟩ := tileset_of_read hts
    have hq := congrArg Outline.tileset (hlr.sound q hq).2
    obtain rfl := Option.some.inj (hq.symm.trans hk)
    exact congrArg Tileset.tiles hsa

end Reading

/-! ### The blocks that the tiles show -/

/-- The block that a tile shows with the characters of a charset. -/
def blockOf (bytes : Bytes) (t : Tile) : Block where
  chars := t.chars.map fun n => (bytes.drop (8 * n.toNat)).take 8
  colors := t.colors.map Int.toNat

/-- The tile with the id is one of those that are nearest to the block, and all of them have greater ids. -/
def IsNearest (bytes : Bytes) (tiles : Table Int Tile) (block : Block) (id : Int) : Prop :=
  ∃ t, (id, t) ∈ tiles ∧ ∀ e ∈ tiles, block.distance (blockOf bytes t) ≤ block.distance (blockOf bytes e.2) ∧
    (e.1 < id → block.distance (blockOf bytes t) < block.distance (blockOf bytes e.2))

section Blocks

variable {c : Charset} {patterns : List Bytes} {tiles : List KitTile}

theorem drop_take_of_holdsAt {b part : Bytes} {o : Nat} (h : b.HoldsAt o part) : (b.drop o).take part.length = part := by
  obtain ⟨before, after, rfl, rfl⟩ := h
  simp

theorem slot_bytes (hf : c.Fits patterns) (height : ∀ p ∈ patterns, p.length = 8) {p : Bytes} (hp : p ∈ patterns) :
    (c.bytes.drop (8 * (Int.ofNat (c.slots.getD p 0)).toNat)).take 8 = (c.kept[c.slots.getD p 0]?).getD [] := by
  obtain ⟨i, q, hs, hk, hl⟩ := hf.slot height hp
  have hi : c.slots.getD p 0 = i := by rw [Table.getD, hs, Option.getD_some]
  have hb := drop_take_of_holdsAt (hf.filled i q hk)
  rw [hl] at hb
  rw [hi, hk, Option.getD_some]
  exact hb

theorem blockOf_tileOf (hf : c.Fits patterns) (height : ∀ p ∈ patterns, p.length = 8) {t : KitTile}
    (ht : ∀ p ∈ t.block.chars.toList, p ∈ patterns) (id : Int) : blockOf c.bytes (tileOf c t id) = t.block.inCharset c := by
  simp only [Quad.toList, List.forall_mem_cons, List.not_mem_nil, false_implies, implies_true, and_true] at ht
  obtain ⟨htl, htr, hbl, hbr⟩ := ht
  simp only [blockOf, tileOf, Block.slots, Block.inCharset, Quad.map, slot_bytes hf height htl,
    slot_bytes hf height htr, slot_bytes hf height hbl, slot_bytes hf height hbr]
  rfl

theorem mem_numbered {e : Int × Tile} :
    e ∈ numbered c tiles ↔ ∃ (i : Nat) (t : KitTile), tiles[i]? = some t ∧ e = ((i : Int), tileOf c t i) := by
  simp only [numbered, List.mem_map, Prod.exists, List.mem_zipIdx_iff_getElem?]
  constructor
  · rintro ⟨t, i, ht, rfl⟩
    exact ⟨i, t, ht, rfl⟩
  · rintro ⟨i, t, ht, rfl⟩
    exact ⟨t, i, ht, rfl⟩

/-- Tiles have the order of their blocks, so that the first of the nearest blocks is the nearest tile of the lowest id. -/
theorem isNearest_of_leastAt {block : Block} {n : Nat}
    (hbl : ∀ t ∈ tiles, ∀ id, blockOf c.bytes (tileOf c t id) = t.block.inCharset c)
    (h : LeastAt block.distance (tiles.map (·.block.inCharset c)) n) : IsNearest c.bytes (numbered c tiles) block n := by
  obtain ⟨b, hb, hle, hlt⟩ := h
  rw [List.getElem?_map, Option.map_eq_some_iff] at hb
  obtain ⟨t, ht, rfl⟩ := hb
  refine ⟨_, mem_numbered.mpr ⟨n, t, ht, rfl⟩, fun e he => ?_⟩
  obtain ⟨i, u, hu, rfl⟩ := mem_numbered.mp he
  have hmem := List.mem_of_getElem? hu
  rw [hbl t (List.mem_of_getElem? ht), hbl u hmem]
  refine ⟨hle _ (List.mem_map_of_mem hmem), fun hi => hlt i (Int.ofNat_lt.mp hi) _ ?_⟩
  rw [List.getElem?_map, hu, Option.map_some]

end Blocks

end TileKit

namespace TileKitCompiler

open TileKit

variable {k : Kit} {tree : FileTree} {p : Places} {byRank : Bool}

theorem Kit.MadeFrom.size_picture (h : k.MadeFrom tree p byRank) : k.picture.width = 320 ∧ k.picture.height = 200 := by
  have hp := h.picture
  simp only [loadPicture, except_bind_eq_ok] at hp
  obtain ⟨_, _, koala, _, hr⟩ := hp
  rw [← Except.ok.inj hr]
  exact ⟨rfl, rfl⟩

theorem Kit.MadeFrom.blocks (h : k.MadeFrom tree p byRank) :
    ∀ t ∈ k.listing.tiles, ∀ id, blockOf k.charset.bytes (tileOf k.charset t id) = t.block.inCharset k.charset := by
  intro t ht
  obtain ⟨u, hu, hb, -⟩ := exists_of_mem_listing h.listing t ht
  refine blockOf_tileOf h.fits h.patterns_length fun q hq => ?_
  rw [hb] at hq
  exact List.mem_flatMap.mpr ⟨u, hu, hq⟩

/-- A tileset has the tiles of a kit: the listed ones, numbered from zero in the order of their lines, each with its own
characters, colours and flags. The header has the shared colours, and every byte of the map is the id of a nearest tile,
the lowest one if there are several. -/
structure Kit.ShownBy (k : Kit) (ts : LinkedTileset) : Prop where
  tiles : ts.tiles = numbered k.charset k.listing.tiles
  background : ts.background = k.colors.background
  multicolor1 : ts.multicolor1 = k.colors.multicolor1
  multicolor2 : ts.multicolor2 = k.colors.multicolor2
  length_map : k.map.length = 240
  map : ∀ my < 12, ∀ mx < 20, ∃ block n,
    Block.sample? k.picture k.colors (mx * 16 : Nat) (my * 16 : Nat) = some block ∧ k.map[my * 20 + mx]? = some n ∧
      IsNearest k.charset.bytes ts.tiles block n.toNat

theorem Kit.MadeFrom.shownBy {ts : LinkedTileset} (h : k.MadeFrom tree p byRank)
    (ht : ts.tiles = numbered k.charset k.listing.tiles) (hc : ts.background = k.colors.background ∧
      ts.multicolor1 = k.colors.multicolor1 ∧ ts.multicolor2 = k.colors.multicolor2) : k.ShownBy ts := by
  obtain ⟨hw, hh⟩ := h.size_picture
  have hs : k.blocks ≠ [] := by
    rw [Kit.blocks, ne_eq, List.map_eq_nil_iff]
    exact h.tiles_ne_nil
  obtain ⟨hl, hce⟩ := tileMap_spec hw hh hs h.map
  refine ⟨ht, hc.1, hc.2.1, hc.2.2, hl, fun my hmy mx hmx => ?_⟩
  obtain ⟨block, n, hb, hn, hle⟩ := hce my hmy mx hmx
  rw [ht]
  exact ⟨block, n, hb, hn, isNearest_of_leastAt h.blocks hle⟩

/-- Two tiles of an empty picture, one of them named like a section. -/
def hiddenCells : List PlainCell :=
  [⟨0, "tiles", ["solid"]⟩, ⟨1, "tile tiles", ["solid"]⟩]

theorem compiles_hiddenCells : Compiles hiddenCells := by
  decide +kernel

theorem listing_hiddenCells : (deskKit hiddenCells).listing.groups.isEmpty = true ∧
    (deskKit hiddenCells).listing.tiles.map (·.name) = ["TILES", "TILE_TILES"] ∧
    (deskKit hiddenCells).listing.symbols = ["TILES", "TILE_TILES"] ∧
    (deskKit hiddenCells).listing.tiles.map (·.flags) = ["SOLID", "SOLID"] := by
  decide +kernel

end TileKitCompiler

end EscapeRoom
