import EscapeRoom.Command.TileKitCompiler
import EscapeRoom.Proofs.Picture.Charset
import EscapeRoom.Proofs.Picture.Koala
import EscapeRoom.Proofs.TileKit.Linking

/-!
# Runs of the tile kit compiler

A run that comes to its end has made a kit of the specification and the picture, and written it. The characters of the
kit have eight rows, so that there is a charset for them; its tiles are listed, and its map tells for every block of the
picture the first of the listed tiles that are nearest to it.
-/

namespace EscapeRoom

namespace TileKitCompiler

open TileKit

/-- What a run makes of a specification and a picture. -/
structure Kit where
  picture : Raster
  colors : SharedColors
  tiles : List KitTile
  charset : Charset
  listing : Listing
  text : String
  map : Bytes

/-- The blocks of the listed tiles with the characters of the charset. -/
def Kit.blocks (k : Kit) : List Block :=
  k.listing.tiles.map (·.block.inCharset k.charset)

/-- The kit is made of what lies at the places of the inputs. -/
structure Kit.MadeFrom (k : Kit) (tree : FileTree) (p : Places) (byRank : Bool) : Prop where
  ending : Text.lower (Path.suffix p.spec) = ".json"
  entries : ∃ entries, loadSpec tree p.spec = .ok entries ∧ entries ≠ [] ∧
    sampleAll k.picture k.colors entries = .ok k.tiles
  picture : loadPicture tree p.picture = .ok k.picture
  colors : sharedColors k.picture byRank = k.colors
  charset : (Charset.build (patterns k.tiles)).getD ⟨[], [], []⟩ = k.charset
  text : tilesetText (Path.stem p.spec) p.charsetName k.colors k.charset k.tiles = .ok (k.listing, k.text)
  map : tileMap k.picture k.colors k.blocks = .ok k.map

/-- The texts of the specification have no line breaks, and the names can stand in the header of a tileset. -/
structure Places.Plain (p : Places) (tree : FileTree) : Prop where
  spec : ∀ spec, tree.json p.spec = .ok spec → spec.OneLine
  name : Level.IsQuotable (Path.stem p.spec) ∧ '"' ∉ (Path.stem p.spec).toList
  charset : Level.IsBare p.charsetName

/-- Writes the kit: the charset, the tileset, the map and the catalogue. -/
def Kit.write (k : Kit) (p : Places) : Act Unit := do
  Act.makeDirectories (Path.parent p.charset)
  Act.write p.charset (.data k.charset.bytes)
  Act.makeDirectories (Path.parent p.tileset)
  Act.writeText p.tileset k.text
  Act.makeDirectories p.directory
  Act.makeDirectories (Path.parent p.map)
  Act.write p.map (.data k.map)
  writeCatalogue p
    { name := Path.stem p.spec
      locations := Path.lastName p.locations
      source := sourcePicture (← Act.tree) p
      colors := k.colors
      charset := k.charset
      tiles := k.listing.tiles }

variable {s s' : Session}

theorem ends_readEntries {path : String} {entries : List Entry} :
    (readEntries path).Ends s entries s' ↔ loadSpec s.tree path = .ok entries ∧ s = s' := by
  simp only [readEntries, Act.ends_bind, Act.ends_tree]
  constructor
  · rintro ⟨t, s₁, ⟨rfl, rfl⟩, h⟩
    split at h
    · rename_i found hf
      obtain ⟨rfl, rfl⟩ := Act.ends_pure.mp h
      exact ⟨hf, rfl⟩
    · exact absurd h Act.not_ends_crash
    · exact absurd h Act.not_ends_crash
  · rintro ⟨h, rfl⟩
    refine ⟨s.tree, s, ⟨rfl, rfl⟩, ?_⟩
    rw [h]
    exact Act.ends_pure.mpr ⟨rfl, rfl⟩

theorem ends_readPicture {path : String} {r : Raster} :
    (readPicture path).Ends s r s' ↔ loadPicture s.tree path = .ok r ∧ s = s' := by
  simp only [readPicture, Act.ends_bind, Act.ends_tree]
  constructor
  · rintro ⟨t, s₁, ⟨rfl, rfl⟩, h⟩
    split at h
    · rename_i found hf
      obtain ⟨rfl, rfl⟩ := Act.ends_pure.mp h
      exact ⟨hf, rfl⟩
    · exact absurd h Act.not_ends_crash
    · exact absurd h Act.not_ends_crash
  · rintro ⟨h, rfl⟩
    refine ⟨s.tree, s, ⟨rfl, rfl⟩, ?_⟩
    rw [h]
    exact Act.ends_pure.mpr ⟨rfl, rfl⟩

theorem ends_orKitCrash {α : Type} {r : Except KitError α} {a : α} : (orCrash r).Ends s a s' ↔ r = .ok a ∧ s = s' := by
  cases r with
  | ok b => simp [orCrash]
  | error e => simp [orCrash]

def finish (p : Places) (picture : Raster) (colors : SharedColors) (tiles : List KitTile) : Act Unit := do
  let charset := (Charset.build (patterns tiles)).getD ⟨[], [], []⟩
  Act.makeDirectories (Path.parent p.charset)
  Act.write p.charset (.data charset.bytes)
  let (listing, text) ← orCrash (tilesetText (Path.stem p.spec) p.charsetName colors charset tiles)
  Act.makeDirectories (Path.parent p.tileset)
  Act.writeText p.tileset text
  let map ← orCrash (tileMap picture colors (listing.tiles.map (·.block.inCharset charset)))
  Act.makeDirectories p.directory
  Act.makeDirectories (Path.parent p.map)
  Act.write p.map (.data map)
  writeCatalogue p
    { name := Path.stem p.spec
      locations := Path.lastName p.locations
      source := sourcePicture (← Act.tree) p
      colors, charset
      tiles := listing.tiles }

theorem ends_finish {p : Places} {picture : Raster} {colors : SharedColors} {tiles : List KitTile} {u : Unit} :
    (finish p picture colors tiles).Ends s u s' ↔ ∃ k : Kit, k.picture = picture ∧ k.colors = colors ∧ k.tiles = tiles ∧
      (Charset.build (patterns k.tiles)).getD ⟨[], [], []⟩ = k.charset ∧
      tilesetText (Path.stem p.spec) p.charsetName k.colors k.charset k.tiles = .ok (k.listing, k.text) ∧
      tileMap k.picture k.colors k.blocks = .ok k.map ∧ (k.write p).Ends s u s' := by
  simp only [finish, Kit.write, Act.ends_bind, ends_orKitCrash]
  constructor
  · rintro ⟨_, s₁, hp, _, s₂, hc, ⟨listing, text⟩, _, ⟨ht, rfl⟩, _, s₃, hp', _, s₄, hw, map, _,
      ⟨hmap, rfl⟩, hr⟩
    exact ⟨⟨picture, colors, tiles, _, listing, text, map⟩, rfl, rfl, rfl, rfl, ht, hmap, _, s₁, hp, _, s₂, hc,
      _, s₃, hp', _, s₄, hw, hr⟩
  · rintro ⟨k, rfl, rfl, rfl, hc, ht, hmap, _, s₁, hp, _, s₂, hwr, _, s₃, hp', _, s₄, hw,
      hr⟩
    rw [hc]
    exact ⟨_, s₁, hp, _, s₂, hwr, (k.listing, k.text), _, ⟨ht, rfl⟩, _, s₃, hp', _, s₄, hw, k.map, _,
      ⟨hmap, rfl⟩, hr⟩

/-- A run comes to its end exactly if it makes a kit and the kit can be written. -/
theorem ends_run {words : List String} {u : Unit} : (run words).Ends s u s' ↔ ∃ a k, usage.read words = .ok a ∧
    Kit.MadeFrom k s.tree (Places.of s.tree.rootPath a) (a.isOn "--fast") ∧
    (k.write (Places.of s.tree.rootPath a)).Ends s u s' := by
  unfold run
  simp only [Act.ends_bind, Act.ends_arguments, Act.ends_root]
  constructor
  · rintro ⟨a, _, ⟨ha, rfl⟩, _, _, ⟨rfl, rfl⟩, h⟩
    split at h
    · exact absurd (Act.ends_bind.mp h) (by simp)
    rename_i he
    obtain ⟨entries, _, hread, h⟩ := Act.ends_bind.mp h
    obtain ⟨hen, rfl⟩ := ends_readEntries.mp hread
    split at h
    · exact absurd (Act.ends_bind.mp h) (by simp)
    rename_i hs
    obtain ⟨picture, _, hload, h⟩ := Act.ends_bind.mp h
    obtain ⟨hp, rfl⟩ := ends_readPicture.mp hload
    split at h
    · rename_i tiles ht
      obtain ⟨_, _, hpure, h⟩ := Act.ends_bind.mp h
      obtain ⟨rfl, rfl⟩ := Act.ends_pure.mp hpure
      obtain ⟨k, rfl, hc, rfl, hch, hte, hmap, hw⟩ := ends_finish.mp h
      rw [← hc] at ht
      have he : Text.lower (Path.suffix (Places.of s.tree.rootPath a).spec) = ".json" := by simpa using he
      have hs : entries ≠ [] := by simpa using hs
      exact ⟨a, k, ha, ⟨he, ⟨entries, hen, hs, ht⟩, hp, hc.symm, hch, hte, hmap⟩, hw⟩
    · exact absurd (Act.ends_bind.mp h) (by simp)
  · rintro ⟨a, k, ha, ⟨he, ⟨entries, hen, hs, ht⟩, hp, hc, hch, hte, hmap⟩, hw⟩
    refine ⟨a, s, ⟨ha, rfl⟩, _, s, ⟨rfl, rfl⟩, ?_⟩
    rw [if_neg (by simpa using he)]
    refine Act.ends_bind.mpr ⟨entries, s, ends_readEntries.mpr ⟨hen, rfl⟩, ?_⟩
    rw [if_neg (by simpa using hs)]
    refine Act.ends_bind.mpr ⟨k.picture, s, ends_readPicture.mpr ⟨hp, rfl⟩, ?_⟩
    rw [hc, ht]
    refine Act.ends_bind.mpr ⟨k.tiles, s, Act.ends_pure.mpr ⟨rfl, rfl⟩, ?_⟩
    exact ends_finish.mpr ⟨k, rfl, rfl, rfl, hch, hte, hmap, hw⟩

end TileKitCompiler

namespace TileKit

variable {l : Listing} {r : Raster} {s : SharedColors} {tiles : List KitTile}

/-! ### Characters -/

theorem length_chars_sample? {x y : Int} {b : Block} (h : Block.sample? r s x y = some b) :
    ∀ p ∈ b.chars.toList, p.length = 8 := by
  unfold Block.sample? at h
  split at h
  · cases h
  · obtain rfl := Option.some.inj h
    have hb : ∀ x y, (Multicolor.encode s (r.cell x y)).bytes.length = 8 := fun x y => by
      simp [Multicolor.encode, Raster.cell]
    simp [Quad.map, Quad.toList, hb]

theorem length_of_mem_patterns {entries : List Entry}
    (h : sampleAll r s entries = .ok tiles) : ∀ p ∈ patterns tiles, p.length = 8 := by
  have hbl : ∀ t ∈ tiles, ∀ p ∈ t.block.chars.toList, p.length = 8 := by
    refine forall_mem_of_forall₂ (forall₂_of_mapM_ok h) fun e _ t ht => ?_
    split at ht
    · rename_i b hb
      obtain rfl := Except.ok.inj ht
      rw [block_ofEntry]
      exact length_chars_sample? hb
    · cases ht
  intro p hp
  obtain ⟨t, ht, hp⟩ := List.mem_flatMap.mp hp
  exact hbl t ht p hp

theorem fits_getD_build {patterns : List Bytes} (h : ∀ p ∈ patterns, p.length = 8) :
    ((Charset.build patterns).getD ⟨[], [], []⟩).Fits patterns := by
  by_cases hfew : (Multicolor.tally patterns).length ≤ 256
  · rw [Charset.build_of_few hfew]
    exact Charset.fits_all h hfew
  · have hm := Nat.lt_of_not_le hfew
    rw [Charset.build_of_many h hm rfl]
    exact Charset.fits_commonest h hm rfl

/-! ### Listings -/

theorem exists_of_mem_listing (h : Listing.of tiles = .ok l) :
    ∀ t ∈ l.tiles, ∃ u ∈ tiles, t.block = u.block ∧ t.flags = u.flags := by
  rw [Listing.of, except_bind_eq_ok] at h
  obtain ⟨groups, hgr, h⟩ := h
  obtain rfl := Except.ok.inj h
  have hmem := mem_of_mem_groupsOf hgr
  intro t ht
  simp only [Listing.tiles, List.mem_append, List.mem_flatMap, List.mem_filter, List.mem_map] at ht
  rcases ht with (ht | ⟨g, hg, ht⟩) | ⟨g, hg, u, hu, rfl⟩
  · exact ⟨t, ht.1, rfl, rfl⟩
  · exact ⟨t, (hmem g hg t (List.mem_filter.mp ht).1).1, rfl, rfl⟩
  · exact ⟨u, (hmem g hg.1 u hu).1, block_aliasOf u, flags_aliasOf u⟩

theorem groupsOf_ne_nil {groups : List ObjectGroup} (h : groupsOf tiles = .ok groups) {t : KitTile}
    (ht : t ∈ tiles) (ho : t.isOfObject = true) : groups ≠ [] := by
  rw [groupsOf, except_bind_eq_ok] at h
  obtain ⟨table, hta, h⟩ := h
  obtain rfl := Except.ok.inj h
  have hmem : t ∈ tiles.filter (·.isOfObject) := List.mem_filter.mpr ⟨ht, ho⟩
  obtain ⟨before, after, hs⟩ := List.append_of_mem hmem
  rw [hs, List.foldlM_append, except_bind_eq_ok] at hta
  obtain ⟨table₁, -, hta⟩ := hta
  rw [List.foldlM_cons, except_bind_eq_ok] at hta
  obtain ⟨table₂, hst, hta⟩ := hta
  rw [except_bind_eq_ok] at hst
  obtain ⟨key, -, hst⟩ := hst
  obtain rfl := Except.ok.inj hst
  -- A table into which something is put has a key, and keeps it.
  have hput : ∀ (t : Table ObjectKey ObjectGroup) k g, (t.put k g).values ≠ [] := by
    intro t k g hnil
    have hkey : k ∈ (t.put k g).keys := Table.mem_keys_put.mpr (.inl rfl)
    obtain ⟨e, he, -⟩ := List.mem_map.mp hkey
    exact List.ne_nil_of_mem (List.mem_map_of_mem he) hnil
  refine foldlM_ok_induction (P := fun (t : Table ObjectKey ObjectGroup) => t.values ≠ []) hta (hput _ _ _) ?_
  intro u _ table table' _ hst
  rw [except_bind_eq_ok] at hst
  obtain ⟨key, -, hst⟩ := hst
  exact Except.ok.inj hst ▸ hput _ _ _

theorem listing_of_tilesetText {name charset text : String} {c : Charset}
    (h : tilesetText name charset s c tiles = .ok (l, text)) : Listing.of tiles = .ok l := by
  simp only [tilesetText, except_bind_eq_ok] at h
  obtain ⟨_, _, l', hl, _, _, h⟩ := h
  rw [hl, (Prod.mk.inj (Except.ok.inj h)).1]

theorem listing_tiles_ne_nil (h : Listing.of tiles = .ok l) (hs : tiles ≠ []) : l.tiles ≠ [] := by
  rw [Listing.of, except_bind_eq_ok] at h
  obtain ⟨groups, hg, h⟩ := h
  obtain rfl := Except.ok.inj h
  obtain ⟨t, ht⟩ := List.exists_mem_of_ne_nil tiles hs
  cases ho : t.isOfObject with
  | false =>
    refine List.ne_nil_of_mem (a := t) ?_
    simp [Listing.tiles, ht, ho]
  | true =>
    obtain ⟨g, rest, rfl⟩ := List.exists_cons_of_ne_nil (groupsOf_ne_nil hg ht ho)
    -- The first tile of a group is a part, or it is listed under the name of its kind.
    cases hsi : isSingle g.size with
    | true =>
      refine List.ne_nil_of_mem (a := aliasOf g.first) ?_
      simp [Listing.tiles, hsi, ObjectGroup.tiles]
    | false =>
      have hsz : isSingle g.first.objectSize = false := hsi
      have hp : g.first ∈ Listing.partsOf g := List.mem_filter.mpr ⟨List.mem_cons_self, by simp [hsz]⟩
      refine List.ne_nil_of_mem (a := g.first) ?_
      simp [Listing.tiles, hp]

/-! ### Maps -/

theorem getElem?_mapCells {mx my : Nat} (hmx : mx < 20) (hmy : my < 12) :
    ((List.range 12).flatMap fun my => (List.range 20).map fun mx => (mx, my))[my * 20 + mx]? = some (mx, my) := by
  have hall : ∀ my < 12, ∀ mx < 20,
      ((List.range 12).flatMap fun my => (List.range 20).map fun mx => (mx, my))[my * 20 + mx]? = some (mx, my) := by
    decide +kernel
  exact hall my hmy mx hmx

theorem exists_sample? (hw : r.width = 320) (hh : r.height = 200) (s : SharedColors) {mx my : Nat}
    (hmx : mx < 20) (hmy : my < 12) : ∃ block, Block.sample? r s (mx * 16 : Nat) (my * 16 : Nat) = some block := by
  unfold Block.sample?
  rw [if_neg]
  · exact ⟨_, rfl⟩
  · simp only [hw, hh, Bool.or_eq_true, decide_eq_true_eq, not_or]
    omega

/-- Every byte of a map is the number of the first of the blocks that are nearest to its cell of the picture. -/
theorem tileMap_spec {blocks : List Block} {map : Bytes} (hw : r.width = 320)
    (hh : r.height = 200) (hs : blocks ≠ []) (h : tileMap r s blocks = .ok map) :
    map.length = 240 ∧ ∀ my < 12, ∀ mx < 20, ∃ block n, Block.sample? r s (mx * 16 : Nat) (my * 16 : Nat) = some block ∧
      map[my * 20 + mx]? = some n ∧ LeastAt block.distance blocks n.toNat := by
  have hall := forall₂_of_mapM_ok h
  refine ⟨hall.length_eq.symm, fun my hmy mx hmx => ?_⟩
  obtain ⟨n, hn, hc⟩ := exists_getElem?_of_forall₂ hall (getElem?_mapCells hmx hmy)
  obtain ⟨block, hb⟩ := exists_sample? hw hh s hmx hmy
  obtain ⟨e, he, hl⟩ := exists_least?_zipIdx block.distance hs
  refine ⟨block, n, hb, hn, ?_⟩
  simp only [hb, Option.bind_eq_bind, Option.bind_some, he, Option.map_some, Option.getD_some] at hc
  split at hc
  · rename_i hlt
    obtain rfl := Except.ok.inj hc
    rwa [toNat_uint8_ofNat hlt]
  · cases hc

end TileKit

namespace TileKitCompiler.Kit.MadeFrom

open TileKit

variable {k : Kit} {tree : FileTree} {p : Places} {byRank : Bool}

theorem unique {k' : Kit} (h : k.MadeFrom tree p byRank) (h' : k'.MadeFrom tree p byRank) : k = k' := by
  obtain ⟨picture, colors, tiles, charset, listing, text, map⟩ := k
  obtain ⟨picture', colors', tiles', charset', listing', text', map'⟩ := k'
  obtain ⟨-, ⟨entries, hl, -, ht⟩, hp, hc, hch, hte, hmap⟩ := h
  obtain ⟨-, ⟨entries', hl', -, ht'⟩, hp', hc', hch', hte', hm'⟩ := h'
  dsimp only at *
  obtain rfl := Except.ok.inj (hl.symm.trans hl')
  obtain rfl := Except.ok.inj (hp.symm.trans hp')
  obtain rfl := hc.symm.trans hc'
  obtain rfl := Except.ok.inj (ht.symm.trans ht')
  obtain rfl := hch.symm.trans hch'
  obtain ⟨rfl, rfl⟩ := Prod.mk.inj (Except.ok.inj (hte.symm.trans hte'))
  obtain rfl := Except.ok.inj (hmap.symm.trans hm')
  rfl

theorem patterns_length (h : k.MadeFrom tree p byRank) : ∀ q ∈ patterns k.tiles, q.length = 8 := by
  obtain ⟨entries, -, -, ht⟩ := h.entries
  exact length_of_mem_patterns ht

theorem fits (h : k.MadeFrom tree p byRank) : k.charset.Fits (patterns k.tiles) :=
  h.charset ▸ fits_getD_build h.patterns_length

theorem sound (h : k.MadeFrom tree p byRank) (hs : ∀ spec, tree.json p.spec = .ok spec → spec.OneLine) :
    ∀ t ∈ k.tiles, t.Sound := by
  obtain ⟨entries, hl, -, ht⟩ := h.entries
  simp only [loadSpec, except_bind_eq_ok, except_mapError_eq_ok] at hl
  obtain ⟨spec, hj, he⟩ := hl
  exact sound_sampleAll (sound_expand (hs spec hj) he) ht

theorem listing (h : k.MadeFrom tree p byRank) : Listing.of k.tiles = .ok k.listing :=
  listing_of_tilesetText h.text

theorem isHeader (h : k.MadeFrom tree p byRank) (hp : p.Plain tree) :
    IsHeader (Path.stem p.spec) p.charsetName k.colors := by
  have ht := h.text
  simp only [tilesetText, except_bind_eq_ok] at ht
  obtain ⟨_, hh, _⟩ := ht
  exact ⟨hp.name, hp.charset, (headerText_eq_ok hh).2⟩

theorem tiles_ne_nil (h : k.MadeFrom tree p byRank) : k.listing.tiles ≠ [] := by
  obtain ⟨entries, -, hs, ht⟩ := h.entries
  refine listing_tiles_ne_nil h.listing ?_
  rintro hnil
  have hl := (forall₂_of_mapM_ok ht).length_eq
  rw [hnil, List.length_nil, List.length_eq_zero_iff] at hl
  exact hs hl

theorem sound_listing (h : k.MadeFrom tree p byRank) (hp : p.Plain tree) : k.listing.Sound :=
  TileKit.sound_listing (h.sound hp.spec) h.listing

theorem legible (h : k.MadeFrom tree p byRank) (hp : p.Plain tree)
    (hf : ∀ t ∈ k.listing.tiles, Listing.PlainFlags t.flags) : ∀ t ∈ k.listing.tiles, Listing.Legible k.charset t := by
  have hl := (h.sound_listing hp).tiles
  intro t ht
  refine ⟨hl t ht, hf t ht, ?_⟩
  simp only [Block.slots, Quad.map, Quad.toList, List.forall_mem_cons, List.not_mem_nil, false_implies, implies_true, and_true]
  exact ⟨h.fits.slot_lt h.patterns_length _, h.fits.slot_lt h.patterns_length _, h.fits.slot_lt h.patterns_length _,
    h.fits.slot_lt h.patterns_length _⟩

theorem lines (h : k.MadeFrom tree p byRank) (hp : p.Plain tree)
    (hf : ∀ t ∈ k.listing.tiles, Listing.PlainFlags t.flags) :
    (sourceLines (FileTree.normalized k.text)).map Line.text =
      k.listing.lines (Path.stem p.spec) p.charsetName k.colors k.charset := by
  obtain ⟨raws, ht, hpr⟩ :=
    prints_tilesetText (h.isHeader hp) (h.sound hp.spec) h.text (h.legible hp hf)
  have he : FileTree.normalized k.text = k.text := by
    rw [FileTree.normalized, ht, hpr.normalizeEnds_unlines, String.ofList_toList]
  rw [he, ht]
  exact hpr.map_text_sourceLines_unlines

/-- The tileset is read without an issue exactly if the charset is in its place and the listing is legal. -/
theorem exact_read (h : k.MadeFrom tree p byRank) (hp : p.Plain tree)
    (hf : ∀ t ∈ k.listing.tiles, Listing.PlainFlags t.flags) (hw : k.listing.Apart)
    (place : Tileset.Surroundings) : (Tileset.read place (FileTree.normalized k.text)).Exact
      (place.isFile (place.charsetPath p.charsetName) = true ∧ k.listing.Legal) fun _ => True :=
  TileKit.exact_read (h.isHeader hp) (h.sound_listing hp) (h.legible hp hf) hw h.tiles_ne_nil
    (h.lines hp hf)

end TileKitCompiler.Kit.MadeFrom

end EscapeRoom
