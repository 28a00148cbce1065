import EscapeRoom.Proofs.Picture.Palette
import EscapeRoom.Proofs.Picture.SharedColors
import EscapeRoom.Proofs.TileKit.Runs

/-!
# Kits of an empty picture

In a picture of one colour all blocks look alike: each of their characters is encoded without an error as empty rows. So
all tiles that are cut out of it look alike, the charset has one character, and the map has the first tile everywhere.
What the compiler makes of an empty picture then depends on the specification only.
-/

namespace EscapeRoom

/-! ### Pictures of one colour -/

/-- A picture of the size of a screen, all of one colour. -/
structure Raster.IsBlank (r : Raster) (c : Nat) : Prop where
  width : r.width = 320
  height : r.height = 200
  size : r.pixels.size = 320 * 200
  pixels : ∀ x ∈ r.pixels, x = c

section Picture

variable {r : Raster} {c : Nat}

theorem Raster.IsBlank.pixel (h : r.IsBlank c) {x y : Nat} (hx : x < 320) (hy : y < 200) : r.pixel x y = c := by
  have hi : y * r.width + x < r.pixels.size := by
    rw [h.width, h.size]
    omega
  rw [Raster.pixel, Array.getD_eq_getD_getElem?, Array.getElem?_eq_getElem hi, Option.getD_some]
  exact h.pixels _ (Array.getElem_mem hi)

theorem Raster.IsBlank.cell (h : r.IsBlank c) {x y : Nat} (hx : x + 8 ≤ 320) (hy : y + 8 ≤ 200) :
    r.cell x y = List.replicate 8 (List.replicate 8 c) := by
  refine List.map_eq_replicate_iff.mpr fun dy hdy => List.map_eq_replicate_iff.mpr fun dx hdx => ?_
  rw [List.mem_range] at hdx hdy
  exact h.pixel (by omega) (by omega)

theorem leastFrom_zero {α : Type} (cost : α → Nat) (best : α) (l : List α) : leastFrom cost best 0 l = (best, 0) := by
  cases l with
  | nil => rfl
  | cons a l => rw [leastFrom, if_pos rfl]

namespace Multicolor

theorem pairError_background (s : SharedColors) (lc : Nat) : pairError s lc (s.background, s.background) = 0 := by
  have hle := pairError_le_pairCost s lc (s.background, s.background) 0
  rw [SharedColors.color, pairCost_same, if_pos rfl] at hle
  exact Nat.le_zero.mp hle

theorem pairsError_background (s : SharedColors) (lc n : Nat) :
    pairsError s (List.replicate n (s.background, s.background)) lc = 0 := by
  induction n with
  | zero => rfl
  | succ n ih => rw [List.replicate_succ, pairsError_cons, pairError_background, ih]

theorem encode_background (s : SharedColors) :
    encode s (List.replicate 8 (List.replicate 8 s.background)) = ⟨List.replicate 8 0, 0, 0⟩ := by
  have hp : (List.replicate 8 (List.replicate 8 s.background)).flatMap pairsOf =
      List.replicate 32 (s.background, s.background) := rfl
  have hb : bestLocal s (List.replicate 32 (s.background, s.background)) = (0, 0) := by
    rw [bestLocal, pairsError_background, leastFrom_zero]
  have hc : pairCode s 0 (s.background, s.background) = 0 := by
    rw [pairCode, pairError_background, pairCost_same, if_pos rfl, if_pos rfl]
  have hrow : rowByte s 0 (List.replicate 8 s.background) = 0 := by
    have hrp : pairsOf (List.replicate 8 s.background) = List.replicate 4 (s.background, s.background) := rfl
    rw [rowByte, hrp]
    simp only [List.replicate, List.foldl_cons, List.foldl_nil, hc]
    rfl
  rw [encode, hp, hb]
  simp only [List.map_replicate, hrow]

theorem cellsError_eq_zero {s : SharedColors} {cells : List CharCell} (h : ∀ cell ∈ cells, (encode s cell).error = 0) :
    cellsError s cells = 0 := by
  induction cells with
  | nil => rfl
  | cons cell cells ih =>
    rw [List.forall_mem_cons] at h
    rw [cellsError_cons, h.1, ih h.2]

theorem chooseShared_of_errorless {cells : List CharCell} {background : Nat}
    (h : ∀ p : Nat × Nat, cellsError ⟨background, p.1, p.2⟩ cells = 0) :
    chooseShared cells background = (colorPairs background).headD (0, 1) := by
  rw [chooseShared_eq]
  cases colorPairs background with
  | nil => rfl
  | cons p pairs =>
    have hl : 0 < errorLimit := by decide
    rw [leastFrom, if_neg (Nat.ne_of_gt hl)]
    dsimp only
    rw [h p, if_pos hl, leastFrom_zero, List.headD_cons]

end Multicolor

end Picture

namespace TileKit

def Block.blank : Block :=
  ⟨.all (List.replicate 8 0), .all 0⟩

section Blocks

variable {r : Raster} {s : SharedColors}

theorem sample?_blank (h : r.IsBlank s.background) {x y : Int} (hx : 0 ≤ x ∧ x + 16 ≤ 320) (hy : 0 ≤ y ∧ y + 16 ≤ 200) :
    Block.sample? r s x y = some Block.blank := by
  unfold Block.sample?
  rw [if_neg]
  · have hc : ∀ dx dy, dx ≤ 8 → dy ≤ 8 →
        Multicolor.encode s (r.cell (x.toNat + dx) (y.toNat + dy)) = ⟨List.replicate 8 0, 0, 0⟩ := by
      intro dx dy hdx hdy
      rw [h.cell (by omega) (by omega), Multicolor.encode_background]
    dsimp only
    rw [hc 0 0 (by omega) (by omega), hc 8 0 (by omega) (by omega), hc 0 8 (by omega) (by omega),
      hc 8 8 (by omega) (by omega)]
    rfl
  · simp only [h.width, h.height, Bool.or_eq_true, decide_eq_true_eq, not_or]
    omega

theorem tileMap_blank (h : r.IsBlank s.background) {blocks : List Block} (hb : blocks.head? = some Block.blank) :
    tileMap r s blocks = .ok (List.replicate 240 0) := by
  obtain ⟨rest, rfl⟩ := List.head?_eq_some_iff.mp hb
  have hdi : Block.blank.distance Block.blank = 0 := by decide
  refine (Multicolor.mapM_of_forall_ok (g := fun _ => 0) ?_).trans (congrArg Except.ok (List.map_const' ..))
  rintro ⟨mx, my⟩ hc
  simp only [List.mem_flatMap, List.mem_map, List.mem_range, Prod.mk.injEq] at hc
  obtain ⟨y, hy, x, hx, rfl, rfl⟩ := hc
  have hs : Block.sample? r s (x * 16 : Nat) (y * 16 : Nat) = some Block.blank :=
    sample?_blank h (by omega) (by omega)
  simp only [hs, Option.bind_eq_bind, Option.bind_some, List.zipIdx_cons, least?, hdi, leastFrom_zero]
  rfl

end Blocks

end TileKit

namespace TileKitCompiler

open TileKit

/-- The shared colours of a picture of one colour: its own, and the first two others. -/
def blankColors (c : Nat) : SharedColors :=
  ⟨c, ((Multicolor.colorPairs c).headD (0, 1)).1, ((Multicolor.colorPairs c).headD (0, 1)).2⟩

section Kit

variable {r : Raster} {c : Nat} {entries : List Entry} {tree : FileTree} {p : Places}

theorem sharedColors_blank (h : r.IsBlank c) : sharedColors r false = blankColors c := by
  have hs : r.pixels.toList ≠ [] := by
    intro hnil
    have hsi := h.size
    rw [← Array.length_toList, hnil] at hsi
    cases hsi
  have hb : (Multicolor.commonest r.pixels.toList).1 = c := by
    refine h.pixels _ ?_
    rw [← Array.mem_toList_iff]
    exact (Multicolor.commonest_spec hs).1
  have hc : ∀ cell ∈ cells r, cell = List.replicate 8 (List.replicate 8 c) := by
    intro cell hce
    simp only [cells, List.mem_flatMap, List.mem_map, List.mem_range] at hce
    obtain ⟨cy, hcy, cx, hcx, rfl⟩ := hce
    exact h.cell (by omega) (by omega)
  have hsh : Multicolor.chooseShared (cells r) c = (Multicolor.colorPairs c).headD (0, 1) := by
    refine Multicolor.chooseShared_of_errorless fun p => Multicolor.cellsError_eq_zero fun cell hce => ?_
    rw [hc cell hce, Multicolor.encode_background ⟨c, p.1, p.2⟩]
  simp only [sharedColors, hb, hsh, Bool.false_eq_true, if_false, blankColors]

def blankTiles (entries : List Entry) : List KitTile :=
  entries.map (KitTile.ofEntry · Block.blank)

theorem sampleAll_blank (h : r.IsBlank c) (hi : ∀ e ∈ entries, (0 ≤ e.x ∧ e.x + 16 ≤ 320) ∧ 0 ≤ e.y ∧ e.y + 16 ≤ 200) :
    sampleAll r (blankColors c) entries = .ok (blankTiles entries) := by
  refine Multicolor.mapM_of_forall_ok fun e he => ?_
  obtain ⟨hx, hy⟩ := hi e he
  rw [sample?_blank h hx hy]

def blankCharset (entries : List Entry) : Charset :=
  (Charset.build (patterns (blankTiles entries))).getD ⟨[], [], []⟩

def blankKit (r : Raster) (c : Nat) (entries : List Entry) (name charsetName : String) : Kit :=
  let written := (tilesetText name charsetName (blankColors c) (blankCharset entries) (blankTiles entries)).toOption.getD
    (⟨[], [], []⟩, "")
  { picture := r
    colors := blankColors c
    tiles := blankTiles entries
    charset := blankCharset entries
    listing := written.1
    text := written.2
    map := List.replicate 240 0 }

theorem block_of_mem_blankTiles {t : KitTile} (h : t ∈ blankTiles entries) : t.block = Block.blank := by
  obtain ⟨e, _, rfl⟩ := List.mem_map.mp h
  exact block_ofEntry e Block.blank

theorem patterns_blankTiles : ∀ q ∈ patterns (blankTiles entries), q = List.replicate 8 0 := by
  intro q hq
  obtain ⟨t, ht, hq⟩ := List.mem_flatMap.mp hq
  rw [block_of_mem_blankTiles ht] at hq
  simpa [Block.blank, Quad.all, Quad.toList] using hq

theorem inCharset_blank (hs : entries ≠ []) : Block.blank.inCharset (blankCharset entries) = Block.blank := by
  have hf : (blankCharset entries).Fits (patterns (blankTiles entries)) := fits_getD_build fun q hq => by
    rw [patterns_blankTiles q hq, List.length_replicate]
  have hmem : List.replicate 8 0 ∈ patterns (blankTiles entries) := by
    obtain ⟨e, rest, rfl⟩ := List.exists_cons_of_ne_nil hs
    exact List.mem_flatMap.mpr ⟨_, List.mem_cons_self, by simp [KitTile.ofEntry, Block.blank, Quad.all, Quad.toList]⟩
  obtain ⟨i, q, hsl, hk, -⟩ := hf.slot (fun q hq => by rw [patterns_blankTiles q hq, List.length_replicate]) hmem
  have hq : q ∈ patterns (blankTiles entries) :=
    (hf.keys.2 q).mp (List.mem_map_of_mem (Table.mem_of_get? (hf.own i q hk)))
  rw [patterns_blankTiles q hq] at hk
  simp only [Block.inCharset, Block.blank, Quad.map, Quad.all, Table.getD, hsl, Option.getD_some, hk]

theorem madeFrom_blankKit (h : r.IsBlank c) (he : Text.lower (Path.suffix p.spec) = ".json")
    (hl : loadSpec tree p.spec = .ok entries) (hs : entries ≠ [])
    (hi : ∀ e ∈ entries, (0 ≤ e.x ∧ e.x + 16 ≤ 320) ∧ 0 ≤ e.y ∧ e.y + 16 ≤ 200)
    (hp : loadPicture tree p.picture = .ok r)
    (ht : (tilesetText (Path.stem p.spec) p.charsetName (blankColors c) (blankCharset entries)
      (blankTiles entries)).toBool = true) :
    (blankKit r c entries (Path.stem p.spec) p.charsetName).MadeFrom tree p false := by
  have hw : tilesetText (Path.stem p.spec) p.charsetName (blankColors c) (blankCharset entries) (blankTiles entries) =
      .ok ((blankKit r c entries (Path.stem p.spec) p.charsetName).listing,
        (blankKit r c entries (Path.stem p.spec) p.charsetName).text) := by
    cases hr : tilesetText (Path.stem p.spec) p.charsetName (blankColors c) (blankCharset entries) (blankTiles entries) with
    | error e =>
      rw [hr] at ht
      cases ht
    | ok written => simp only [blankKit, hr, Except.toOption, Option.getD_some]
  refine ⟨he, ⟨entries, hl, hs, sampleAll_blank h hi⟩, hp, sharedColors_blank h, rfl, hw, ?_⟩
  have hli := listing_of_tilesetText hw
  have hti : blankTiles entries ≠ [] := by simpa [blankTiles] using hs
  obtain ⟨t, rest, hc⟩ := List.exists_cons_of_ne_nil (listing_tiles_ne_nil hli hti)
  obtain ⟨u, hu, hb, -⟩ := exists_of_mem_listing hli t (hc ▸ List.mem_cons_self)
  refine tileMap_blank h ?_
  rw [Kit.blocks, hc, List.map_cons, List.head?_cons, hb, block_of_mem_blankTiles hu]
  exact congrArg some (inCharset_blank hs)

end Kit

/-! ### A desk with an empty picture -/

/-- A cell of a specification that no object covers. -/
structure PlainCell where
  x : Int
  description : String
  flags : List String

def PlainCell.json (c : PlainCell) : Json :=
  .obj [("x", .int c.x), ("description", .str c.description), ("flags", .arr (c.flags.map .str))]

def specOf (cells : List PlainCell) : Json :=
  .obj [("cells", .arr (cells.map PlainCell.json))]

def expansionOf (cells : List PlainCell) : Except SpecError Expansion :=
  (cells.map PlainCell.json).foldlM (addCell []) {}

def plainEntries (cells : List PlainCell) : List Entry :=
  ((expansionOf cells).toOption.getD {}).entries

/-- A specification of cells beside an empty picture. -/
def desk (cells : List PlainCell) : Session where
  tree :=
    { root := ["w"]
      directories := []
      files := [(["w", "k.json"], ⟨.json 2 (specOf cells), 0⟩), (["w", "k.kla"], ⟨.data (Koala.uniform 0 0 0), 0⟩)]
      clock := 1 }

/-- Where the kit of the desk is written if nothing else is asked for. -/
def deskPlaces : Places where
  spec := "/w/k.json"
  picture := "/w/k.kla"
  directory := "/w/gen/analysis/k"
  charset := "/w/assets/k_chargen.bin"
  tileset := "/w/levels/k.tset"
  map := "/w/gen/analysis/k/k_tmap.bin"
  locations := "/w/gen/analysis/k/k_tile_locations.png"
  info := "/w/gen/analysis/k/k_info.txt"
  charsetName := "assets/k_chargen.bin"

deriving instance DecidableEq for Places

def deskKit (cells : List PlainCell) : Kit :=
  blankKit (Koala.ofData (Koala.uniform 0 0 0)).raster 0 (plainEntries cells) "k" "assets/k_chargen.bin"

section Desk

variable {cells : List PlainCell}

theorem expand_specOf {e : Expansion} (h : expansionOf cells = .ok e) : expand (specOf cells) = .ok e.entries := by
  rw [expansionOf] at h
  have ho : memberOr (specOf cells) "objects" (.arr []) = .ok (.arr []) := rfl
  have hc : memberOr (specOf cells) "cells" (.arr []) = .ok (.arr (cells.map PlainCell.json)) := rfl
  simp only [expand, ho, hc, elementsOf, except_ok_bind, List.foldlM_nil, pure, Except.pure, h, List.mergeSort_nil]

theorem read_desk : usage.read ["k.json"] = .ok { argument := some "k.json" } := by decide +kernel

theorem isOn_desk : Arguments.isOn { argument := some "k.json" } "--fast" = false := rfl

theorem places_desk (cells : List PlainCell) :
    Places.of (desk cells).tree.rootPath { argument := some "k.json" } = deskPlaces := by
  have hr : (desk cells).tree.rootPath = "/w" := rfl
  rw [hr]
  decide +kernel

theorem json_desk (cells : List PlainCell) : (desk cells).tree.json deskPlaces.spec = .ok (specOf cells) := rfl

theorem bytes_desk (cells : List PlainCell) : (desk cells).tree.bytes deskPlaces.picture = .ok (Koala.uniform 0 0 0) := rfl

theorem plain_desk (h : ∀ c ∈ cells, Text.Unbroken c.description ∧ ∀ flag ∈ c.flags, Text.Unbroken flag) :
    deskPlaces.Plain (desk cells).tree := by
  have hce : ∀ c ∈ cells, c.json.OneLine := by
    intro c hc
    refine .obj (by simp only [List.forall_mem_cons]; decide) ?_
    simp only [List.forall_mem_cons, List.not_mem_nil, false_implies, implies_true, and_true]
    exact ⟨.int c.x, .str (h c hc).1, .arr (List.forall_mem_map.mpr fun flag hf => .str ((h c hc).2 flag hf))⟩
  refine ⟨fun spec hs => ?_, by decide +kernel, by decide +kernel⟩
  obtain rfl := Except.ok.inj ((json_desk cells).symm.trans hs)
  refine .obj (by simp only [List.forall_mem_cons]; decide) ?_
  simp only [List.forall_mem_cons, List.not_mem_nil, false_implies, implies_true, and_true]
  exact .arr (List.forall_mem_map.mpr hce)

/-- The tileset of the desk is read with its charset in place. -/
def deskSurroundings : Tileset.Surroundings where
  path := "levels/k.tset"
  isFile path := path == "levels/../assets/k_chargen.bin"

theorem isFile_desk : deskSurroundings.isFile (deskSurroundings.charsetPath deskPlaces.charsetName) = true := by
  decide +kernel

/-- What is left to check for a run on the desk to come to its end. -/
def Compiles (cells : List PlainCell) : Prop :=
  (expansionOf cells).toBool = true ∧ (plainEntries cells).isEmpty = false ∧
    (∀ e ∈ plainEntries cells, (0 ≤ e.x ∧ e.x + 16 ≤ 320) ∧ 0 ≤ e.y ∧ e.y + 16 ≤ 200) ∧
    (tilesetText "k" "assets/k_chargen.bin" (blankColors 0) (blankCharset (plainEntries cells))
      (blankTiles (plainEntries cells))).toBool = true ∧
    (((deskKit cells).write deskPlaces).outcome (desk cells)).1.toBool = true

instance (cells : List PlainCell) : Decidable (Compiles cells) :=
  inferInstanceAs (Decidable (_ ∧ _))

theorem madeFrom_deskKit (h : Compiles cells) : (deskKit cells).MadeFrom (desk cells).tree deskPlaces false := by
  obtain ⟨hr, hs, hi, ht, -⟩ := h
  have hn : Text.lower (Path.suffix deskPlaces.spec) = ".json" ∧ Path.stem deskPlaces.spec = "k" := by decide +kernel
  have hb : (Koala.ofData (Koala.uniform 0 0 0)).raster.IsBlank 0 :=
    ⟨rfl, rfl, Raster.size_pixels_ofFn _, Koala.pixels_uniform 0 0⟩
  have hl : loadSpec (desk cells).tree deskPlaces.spec = .ok (plainEntries cells) := by
    rw [loadSpec, json_desk]
    cases he : expansionOf cells with
    | error e =>
      rw [he] at hr
      cases hr
    | ok e =>
      rw [plainEntries, he]
      simp only [Except.mapError, except_ok_bind, expand_specOf he, Except.toOption, Option.getD_some]
  have hp := Koala.loadPicture_of_isFileOf (bytes_desk cells) (Koala.length_bands ..) (.inl rfl)
  rw [← hn.2] at ht
  have hm := madeFrom_blankKit hb hn.1 hl (by simpa using hs) hi hp ht
  rwa [hn.2] at hm

/-- A run on the desk comes to its end, and writes the kit of the specification. -/
theorem exists_ends_desk (h : Compiles cells) : ∃ s', (run ["k.json"]).Ends (desk cells) () s' ∧
    ((deskKit cells).write deskPlaces).Ends (desk cells) () s' := by
  have hw : (((deskKit cells).write deskPlaces).outcome (desk cells)).1 = .ok () := by
    cases ho : (((deskKit cells).write deskPlaces).outcome (desk cells)).1 with
    | error e =>
      have hdo := h.2.2.2.2
      rw [ho] at hdo
      cases hdo
    | ok u => rfl
  have he := Act.ends_outcome hw
  refine ⟨_, ends_run.mpr ⟨_, deskKit cells, read_desk, ?_, ?_⟩, he⟩
  · rw [places_desk, isOn_desk]
    exact madeFrom_deskKit h
  · rw [places_desk]
    exact he

end Desk

/-- Two tiles of an empty picture, one with two flags. -/
def ladderCells : List PlainCell :=
  [⟨0, "wall", ["solid"]⟩, ⟨3, "iron ladder", ["ladder", "standable"]⟩]

theorem compiles_ladderCells : Compiles ladderCells := by
  decide +kernel

theorem listing_ladderCells : (deskKit ladderCells).listing.Legal ∧ (deskKit ladderCells).listing.Apart ∧
    ∀ t ∈ (deskKit ladderCells).listing.tiles, ∀ flag ∈ flagList t.flags, flag ∈ flagNames := by
  decide +kernel

end TileKitCompiler

end EscapeRoom
