import Mathlib.Data.List.Pairwise
import Mathlib.Data.Set.Basic
import EscapeRoom.Proofs.Level.Tiling

/-!
# Stamps cut a map in one way

The cells of a map that show a stamp's character may be cut into solid blocks of the stamp's size. They can be
cut in at most one way, since the first cell in reading order that is not yet in a block has to be the corner of
one. For the same reason the map is filled without an issue whenever it can be cut at all: each cell is filled from
the corner of its block, which comes before the block's other cells.
-/

namespace EscapeRoom

open Report

/-- A stamp covers at least one cell and has a tile for each. -/
structure Stamp.WellFormed (s : Stamp) : Prop where
  width : 0 < s.width
  height : 0 < s.height
  tiles : (s.tiles.length : Int) = s.width * s.height

theorem Stamp.WellFormed.tiles_length {s : Stamp} (h : s.WellFormed) :
    s.tiles.length = s.width.toNat * s.height.toNat := by
  have hw := Int.toNat_of_nonneg (Int.le_of_lt h.width)
  have hh := Int.toNat_of_nonneg (Int.le_of_lt h.height)
  have ht := h.tiles
  rw [← hw, ← hh] at ht
  exact_mod_cast ht

namespace Level

variable {b : Block} {x y : Nat}

def StampsWellFormed (level : Level) : Prop :=
  ∀ key stamp, level.stamps.get? key = some stamp → stamp.WellFormed

def blockAt (c : Char) (stamp : Stamp) (p : Nat × Nat) : Block :=
  ⟨p.1, p.2, c, stamp⟩

/-- The cells of a room that show a character are cut into solid blocks of a stamp's size, one at each corner. -/
structure Partition (room : Room) (c : Char) (stamp : Stamp) (corners : Set (Nat × Nat)) : Prop where
  solid : ∀ p ∈ corners, ∀ x y, (blockAt c stamp p).Covers x y → room.charAt x y = some c
  once : ∀ x y, room.charAt x y = some c → ∃! p, p ∈ corners ∧ (blockAt c stamp p).Covers x y

/-- The map of a room has the size of the level, and each of its characters is that of a stamp or that of a tile,
but not both. -/
structure Drawn (level : Level) (room : Room) : Prop where
  height : (room.map.length : Int) = level.height
  width : ∀ row ∈ room.map, (row.2.toList.length : Int) = level.width
  chars : ∀ row ∈ room.map, ∀ c ∈ row.2.toList,
    level.stamps.has (String.singleton c) = !level.tiles.has (String.singleton c)

variable {level : Level} {room : Room} {c : Char} {stamp : Stamp}

theorem covers_corner (hs : stamp.WellFormed) (p : Nat × Nat) : (blockAt c stamp p).Covers p.1 p.2 := by
  have hw := hs.width
  have hh := hs.height
  dsimp only [Block.Covers, blockAt]
  omega

/-! ### Uniqueness -/

namespace Partition

variable {s t : Set (Nat × Nat)}

theorem eq_of_covers (h : Partition room c stamp s) {p q : Nat × Nat} (hp : p ∈ s) (hq : q ∈ s) {x y : Nat}
    (hpx : (blockAt c stamp p).Covers x y) (hqx : (blockAt c stamp q).Covers x y) : p = q :=
  (h.once x y (h.solid p hp x y hpx)).unique ⟨hp, hpx⟩ ⟨hq, hqx⟩

/-- The corner of a cell's block in one partition is a corner in any other. A corner that is not the cell itself
lies before the cell, so the induction is on the distance of the cell from the top left. -/
theorem corner_mem (hst : stamp.WellFormed) (hs : Partition room c stamp s) (ht : Partition room c stamp t)
    {x y : Nat} {p : Nat × Nat} (hp : p ∈ s) (hc : (blockAt c stamp p).Covers x y) : p ∈ t := by
  induction hn : x + y using Nat.strong_induction_on generalizing s t x y p with
  | _ n ih =>
    have hbe : ∀ q : Nat × Nat, (blockAt c stamp q).Covers x y → q = (x, y) ∨ q.1 + q.2 < n := by
      rintro ⟨a, b⟩ ⟨ha, _, hb, _⟩
      dsimp only [blockAt] at ha hb
      rw [Prod.mk.injEq]
      omega
    rcases hbe p hc with rfl | hlt
    · obtain ⟨q, ⟨hq, hqx⟩, _⟩ := ht.once x y (hs.solid _ hp x y hc)
      rcases hbe q hqx with rfl | hlt
      · exact hq
      · -- The other partition's corner lies before the cell, so it is a corner here too, and is the cell's own.
        have hqs : q ∈ s := ih _ hlt ht hs hq (covers_corner hst q) rfl
        exact hs.eq_of_covers hqs hp hqx hc ▸ hq
    · exact ih _ hlt hs ht hp (covers_corner hst p) rfl

theorem unique (hst : stamp.WellFormed) (hs : Partition room c stamp s) (ht : Partition room c stamp t) :
    s = t :=
  Set.ext fun p => ⟨fun hp => hs.corner_mem hst ht hp (covers_corner hst p),
    fun hp => ht.corner_mem hst hs hp (covers_corner hst p)⟩

end Partition

/-! ### The partition of a tiled room -/

instance : Std.Symm Block.Disjoint :=
  ⟨fun _ _ h x y hb' hb => h x y hb hb'⟩

theorem Tiling.eq_of_covers {blocks : List Block} (h : Tiling level room blocks) {b b' : Block} (hb : b ∈ blocks)
    (hb' : b' ∈ blocks) (hx : b.Covers x y) (hx' : b'.Covers x y) : b = b' := by
  by_contra hne
  exact h.disjoint.forall hb hb' hne x y hx hx'

theorem Block.Stands.eq_blockAt (h : b.Stands level room) (hx : b.Covers x y)
    (hc : room.charAt x y = some c) (hs : level.stamps.get? (String.singleton c) = some stamp) :
    b = blockAt c stamp (b.x, b.y) := by
  have hch : b.char = c := Option.some.inj ((h.solid x y hx).symm.trans hc)
  have hsa : b.stamp = stamp := by
    have hb := h.stamp
    rw [hch, hs, Option.some.injEq] at hb
    exact hb.symm
  rw [blockAt, ← hch, ← hsa]

theorem Tiling.partition {blocks : List Block} (h : Tiling level room blocks)
    (hs : level.stamps.get? (String.singleton c) = some stamp) :
    Partition room c stamp {p | blockAt c stamp p ∈ blocks} := by
  refine ⟨fun p hp => (h.stands _ hp).solid, fun x y hc => ?_⟩
  obtain ⟨b, hb, hx⟩ := h.total x y c hc (by rw [Table.has, hs]; rfl)
  have heq := (h.stands b hb).eq_blockAt hx hc hs
  refine ⟨(b.x, b.y), ⟨heq ▸ hb, heq ▸ hx⟩, ?_⟩
  rintro ⟨x', y'⟩ ⟨hb', hx'⟩
  have hsa := h.eq_of_covers hb' hb hx' hx
  rw [← hsa]
  rfl

/-! ### Filling a map from the corners -/

/-- The cell from which each cell of a room is filled: the corner of its block if it shows the character of a stamp,
and otherwise the cell itself. -/
structure Anchors (level : Level) (room : Room) (anchor : Nat → Nat → Nat × Nat) : Prop where
  tile : ∀ {x y c}, room.charAt x y = some c → level.stamps.get? (String.singleton c) = none → anchor x y = (x, y)
  covers : ∀ {x y c stamp}, room.charAt x y = some c → level.stamps.get? (String.singleton c) = some stamp →
    (blockAt c stamp (anchor x y)).Covers x y
  block : ∀ {x y c stamp}, room.charAt x y = some c → level.stamps.get? (String.singleton c) = some stamp →
    ∀ {x' y'}, (blockAt c stamp (anchor x y)).Covers x' y' → room.charAt x' y' = some c ∧ anchor x' y' = anchor x y

theorem exists_anchors (h : ∀ c stamp, level.stamps.get? (String.singleton c) = some stamp →
    ∃ corners, Partition room c stamp corners) : ∃ anchor, Anchors level room anchor := by
  have hco : ∀ c, ∃ corners, ∀ stamp, level.stamps.get? (String.singleton c) = some stamp →
      Partition room c stamp corners := by
    intro c
    cases hst : level.stamps.get? (String.singleton c) with
    | none => exact ⟨∅, by simp⟩
    | some stamp =>
      obtain ⟨corners, hp⟩ := h c stamp hst
      exact ⟨corners, fun _ he => Option.some.inj he ▸ hp⟩
  choose corners hco using hco
  have ha : ∀ x y, ∃ p : Nat × Nat, ∀ c, room.charAt x y = some c →
      (level.stamps.get? (String.singleton c) = none → p = (x, y)) ∧
      ∀ stamp, level.stamps.get? (String.singleton c) = some stamp →
        p ∈ corners c ∧ (blockAt c stamp p).Covers x y := by
    intro x y
    cases hc : room.charAt x y with
    | none => exact ⟨(x, y), by simp⟩
    | some c =>
      cases hst : level.stamps.get? (String.singleton c) with
      | none => exact ⟨(x, y), by rintro _ ⟨⟩; simp [hst]⟩
      | some stamp =>
        obtain ⟨p, hp, _⟩ := (hco c stamp hst).once x y hc
        refine ⟨p, ?_⟩
        rintro _ ⟨⟩
        rw [hst]
        exact ⟨by simp, fun _ he => Option.some.inj he ▸ hp⟩
  choose anchor ha using ha
  refine ⟨anchor, fun hc => (ha _ _ _ hc).1, fun hc hs => ((ha _ _ _ hc).2 _ hs).2, ?_⟩
  intro x y c stamp hc hs x' y' hx'
  have hpa := hco c stamp hs
  have hp := ((ha x y c hc).2 stamp hs).1
  have hc' := hpa.solid _ hp x' y' hx'
  have hp' := (ha x' y' c hc').2 stamp hs
  exact ⟨hc', hpa.eq_of_covers hp'.1 hp hp'.2 hx'⟩

section

variable {anchor : Nat → Nat → Nat × Nat} {x y : Nat}

theorem Anchors.le (h : Anchors level room anchor) (hc : room.charAt x y = some c) :
    (anchor x y).1 ≤ x ∧ (anchor x y).2 ≤ y := by
  cases hs : level.stamps.get? (String.singleton c) with
  | none => simp [h.tile hc hs]
  | some stamp =>
    obtain ⟨hx, _, hy, _⟩ := h.covers hc hs
    exact ⟨hx, hy⟩

/-- The cell from which a cell is filled shows the same character and is filled from itself. -/
theorem Anchors.self (h : Anchors level room anchor)
    (hs : level.StampsWellFormed) (hc : room.charAt x y = some c) :
    room.charAt (anchor x y).1 (anchor x y).2 = some c ∧ anchor (anchor x y).1 (anchor x y).2 = anchor x y := by
  cases hst : level.stamps.get? (String.singleton c) with
  | none =>
    rw [h.tile hc hst]
    exact ⟨hc, h.tile hc hst⟩
  | some stamp => exact h.block hc hst (covers_corner (hs _ stamp hst) _)

end

/-- A canvas on which those cells are filled that are filled from some of the cells. -/
structure FilledFrom (level : Level) (anchor : Nat → Nat → Nat × Nat) (done : List (Nat × Nat)) (canvas : Canvas) :
    Prop where
  sized : canvas.Sized level.width.toNat level.height.toNat
  free : ∀ {x y}, x < level.width.toNat → y < level.height.toNat →
    (canvas.get? x y = none ↔ anchor x y ∉ done)

/-- A cell before another one in reading order comes before it in the list of positions. -/
theorem mem_of_before {width height x y : Nat} {done rest : List (Nat × Nat)}
    (hs : positions width height = done ++ (x, y) :: rest) {p : Nat × Nat} (hx : p.1 ≤ x) (hy : p.2 ≤ y)
    (hne : p ≠ (x, y)) : p ∈ done := by
  have hlt : x < width ∧ y < height := mem_positions.mp (by simp [hs])
  have hp := getElem?_positions (Nat.lt_of_le_of_lt hx hlt.1) (Nat.lt_of_le_of_lt hy hlt.2)
  have hi : y * width + x = done.length := by
    have hinj := List.getElem?_inj (j := done.length) (by rw [length_positions]; exact cell_lt hlt.1 hlt.2)
      (nodup_positions width height)
    rw [← hinj, getElem?_positions hlt.1 hlt.2, hs]
    simp
  have hle : p.2 * width + p.1 ≤ y * width + x := Nat.add_le_add (Nat.mul_le_mul_right width hy) hx
  have hb : p.2 * width + p.1 < done.length := by
    refine hi ▸ Nat.lt_of_le_of_ne hle fun he => hne ?_
    exact Prod.ext_iff.mpr (cell_injective (Nat.lt_of_le_of_lt hx hlt.1) hlt.1 he)
  rw [hs, List.getElem?_append_left hb] at hp
  exact List.mem_of_getElem? hp

theorem exists_row_of_charAt (h : room.charAt x y = some c) :
    ∃ row, (room.map.map MapRow.ofLine)[y]? = some row ∧ row.chars[x]? = some c := by
  rw [charAt_eq] at h
  exact Option.bind_eq_some_iff.mp h

/-- Every cell of a level shows a character in a room whose map has the level's size. -/
theorem Drawn.exists_charAt (h : Drawn level room) (hx : x < level.width.toNat)
    (hy : y < level.height.toNat) : ∃ c, room.charAt x y = some c := by
  have hh := h.height
  obtain ⟨row, hrow⟩ : ∃ row, room.map[y]? = some row := ⟨_, List.getElem?_eq_getElem (by omega)⟩
  have hw := h.width row (List.mem_of_getElem? hrow)
  obtain ⟨c, hc⟩ : ∃ c, row.2.toList[x]? = some c := ⟨_, List.getElem?_eq_getElem (by omega)⟩
  exact ⟨c, by rw [Room.charAt, hrow]; exact hc⟩

theorem yields_fittingRows (hw : ∀ row ∈ room.map, (row.2.toList.length : Int) = level.width) :
    (fittingRows level room).Yields (room.map.map MapRow.ofLine) := by
  simp only [fittingRows, yields_bind, yields_pure, yields_mapM]
  refine ⟨room.map.zipIdx.map fun e => some (MapRow.ofLine e.1), ?_, ?_⟩
  · rw [List.forall₂_map_right_iff, List.forall₂_same]
    rintro ⟨⟨line, text⟩, i⟩ he
    have hmem : (line, text) ∈ room.map := List.mem_of_getElem? (List.mem_zipIdx_iff_getElem?.mp he)
    simp [hw _ hmem, MapRow.ofLine]
  · rw [List.filterMap_map]
    calc room.map.zipIdx.filterMap (fun e => some (MapRow.ofLine e.1))
        = room.map.zipIdx.map (MapRow.ofLine ∘ Prod.fst) := congrFun List.filterMap_eq_map' _
      _ = (room.map.zipIdx.map Prod.fst).map MapRow.ofLine := (List.map_map ..).symm
      _ = room.map.map MapRow.ofLine := by rw [List.zipIdx_map_fst]

theorem Drawn.stamp_or_tile (h : Drawn level room) (hc : room.charAt x y = some c) :
    level.stamps.has (String.singleton c) = !level.tiles.has (String.singleton c) := by
  obtain ⟨row, hrow, hch⟩ := Option.bind_eq_some_iff.mp hc
  exact h.chars row (List.mem_of_getElem? hrow) c (List.mem_of_getElem? hch)

theorem yields_checkBlock (h : ∀ x y, b.Covers x y → room.charAt x y = some b.char) :
    (checkBlock room (room.map.map MapRow.ofLine) (String.singleton b.char) b.stamp b.x b.y).Yields () := by
  refine yields_forM.mpr ?_
  rintro ⟨dx, dy⟩ hmem
  have hd := mem_positions.mp hmem
  have hc := h (b.x + dx) (b.y + dy) (by dsimp only [Block.Covers]; omega)
  obtain ⟨row, hrow, hch⟩ := exists_row_of_charAt hc
  simp [hrow, hch]

theorem stampFits_of_solid (h : Drawn level room) (hs : stamp.WellFormed) {p : Nat × Nat}
    (hso : ∀ x y, (blockAt c stamp p).Covers x y → room.charAt x y = some c) :
    stampFits level stamp p.1 p.2 = true := by
  have hw := hs.width
  have hh := hs.height
  have hl := hso (p.1 + stamp.width.toNat - 1) (p.2 + stamp.height.toNat - 1)
    (by dsimp only [Block.Covers, blockAt]; omega)
  have hlt := charAt_lt h.height h.width hl
  simp only [stampFits, Bool.and_eq_true, decide_eq_true_eq]
  omega

theorem exists_filled_of_free (room : Room) (rows : List MapRow) (key : String) {canvas : Canvas}
    (hf : stampFits level b.stamp b.x b.y = true) (hs : canvas.Sized level.width.toNat level.height.toNat)
    (hfr : ∀ x y, b.Covers x y → canvas.get? x y = none) :
    ∃ next, (fillBlock room rows key b.stamp b.x b.y canvas).Yields next ∧
      Filled canvas b level.width.toNat level.height.toNat next := by
  obtain ⟨next, hn, hfi⟩ : ∃ next, (fillBlock room rows key b.stamp b.x b.y canvas).Yields next ∧
      Filling canvas b level.width.toNat level.height.toNat b.cells next := by
    refine exists_yields_foldlM_of_step
      (P := Filling canvas b level.width.toNat level.height.toNat) ⟨hs, by simp, by simp, by simp⟩ ?_
    rintro done ⟨⟨dx, dy⟩, i⟩ rest c hce hc
    have hco := Block.covers_of_mem_cells (b := b) (e := ((dx, dy), i)) (by simp [Block.cells, hce])
    have hno : c.get? (b.x + dx) (b.y + dy) = none := by
      rw [hc.outside _ _ (covers_lt hf hco).1 fun d hd => Block.not_mem_of_cells_eq hce hd]
      exact hfr _ _ hco
    refine ⟨_, ?_, hc.set hf hce hno⟩
    simp [hno]
  exact ⟨next, hn, hfi.filled⟩

theorem Anchors.eq_iff_covers {anchor : Nat → Nat → Nat × Nat} (h : Anchors level room anchor)
    (hs : level.StampsWellFormed)
    (hc : room.charAt x y = some c) (hst : level.stamps.get? (String.singleton c) = some stamp)
    (hse : anchor x y = (x, y)) {x' y' : Nat} {c' : Char} (hc' : room.charAt x' y' = some c') :
    anchor x' y' = (x, y) ↔ (blockAt c stamp (x, y)).Covers x' y' := by
  constructor
  · intro he
    have hsa := (h.self hs hc').1
    rw [he, hc, Option.some.injEq] at hsa
    subst hsa
    exact he ▸ h.covers hc' hst
  · intro hco
    rw [← hse] at hco
    exact (h.block hc hst hco).2.trans hse

section

variable {anchor : Nat → Nat → Nat × Nat} {done rest : List (Nat × Nat)} {canvas next : Canvas} {x y : Nat}

theorem FilledFrom.snoc (h : FilledFrom level anchor done canvas)
    (hs : next.Sized level.width.toNat level.height.toNat)
    (hn : ∀ {x' y'}, x' < level.width.toNat → y' < level.height.toNat →
      (next.get? x' y' = none ↔ canvas.get? x' y' = none ∧ anchor x' y' ≠ (x, y))) :
    FilledFrom level anchor (done ++ [(x, y)]) next := by
  refine ⟨hs, fun hx hy => ?_⟩
  rw [hn hx hy, h.free hx hy, List.mem_append, List.mem_singleton, not_or]

/-- What is filled before its turn comes is not a corner, so no cell is filled from it. -/
theorem FilledFrom.skip (hd : Drawn level room) (ha : Anchors level room anchor)
    (hs : level.StampsWellFormed)
    (hsp : positions level.width.toNat level.height.toNat = done ++ (x, y) :: rest)
    (h : FilledFrom level anchor done canvas) (hf : canvas.get? x y ≠ none) :
    FilledFrom level anchor (done ++ [(x, y)]) canvas := by
  refine h.snoc h.sized fun {x' y'} hx' hy' => (and_iff_left ?_).symm
  intro he
  obtain ⟨c, hc⟩ := hd.exists_charAt hx' hy'
  have hse := (ha.self hs hc).2
  rw [he] at hse
  have hlt : x < level.width.toNat ∧ y < level.height.toNat := mem_positions.mp (by simp [hsp])
  have hdo : anchor x y ∈ done := not_not.mp fun hnot => hf ((h.free hlt.1 hlt.2).mpr hnot)
  have hn := nodup_positions level.width.toNat level.height.toNat
  rw [hsp, List.nodup_append] at hn
  exact hn.2.2 _ (hse ▸ hdo) _ List.mem_cons_self rfl

theorem FilledFrom.tile (hd : Drawn level room) (ha : Anchors level room anchor)
    (hs : level.StampsWellFormed)
    (hx : x < level.width.toNat) (hy : y < level.height.toNat) (hc : room.charAt x y = some c)
    (hst : level.stamps.get? (String.singleton c) = none) (h : FilledFrom level anchor done canvas) (id : Int) :
    FilledFrom level anchor (done ++ [(x, y)]) (canvas.set x y id) := by
  refine h.snoc (h.sized.set x y id) fun {x' y'} hx' hy' => ?_
  have hiff : anchor x' y' = (x, y) ↔ x = x' ∧ y = y' := by
    constructor
    · intro he
      obtain ⟨c', hc'⟩ := hd.exists_charAt hx' hy'
      have hsa := (ha.self hs hc').1
      rw [he, hc, Option.some.injEq] at hsa
      rw [ha.tile hc' (hsa ▸ hst), Prod.mk.injEq] at he
      exact ⟨he.1.symm, he.2.symm⟩
    · rintro ⟨rfl, rfl⟩
      exact ha.tile hc hst
  rw [Canvas.get?_set h.sized id hx hy hx', Ne, hiff]
  split <;> simp_all

theorem FilledFrom.block (hd : Drawn level room) (ha : Anchors level room anchor)
    (hs : level.StampsWellFormed)
    (hc : room.charAt x y = some c) (hst : level.stamps.get? (String.singleton c) = some stamp)
    (hse : anchor x y = (x, y)) (h : FilledFrom level anchor done canvas)
    (hf : Filled canvas (blockAt c stamp (x, y)) level.width.toNat level.height.toNat next) :
    FilledFrom level anchor (done ++ [(x, y)]) next := by
  refine h.snoc hf.sized fun {x' y'} hx' hy' => ?_
  obtain ⟨c', hc'⟩ := hd.exists_charAt hx' hy'
  rw [Ne, ha.eq_iff_covers hs hc hst hse hc']
  by_cases hco : (blockAt c stamp (x, y)).Covers x' y'
  · simp [hf.inside x' y' hco, hco]
  · simp [hf.outside x' y' hx' hco, hco]

/-- Filling from one more cell reports nothing: a cell that is still free is the corner of its block, and its whole
block is free. -/
theorem FilledFrom.placeAt (hd : Drawn level room) (ha : Anchors level room anchor)
    (hs : level.StampsWellFormed)
    (hsp : positions level.width.toNat level.height.toNat = done ++ (x, y) :: rest)
    (h : FilledFrom level anchor done canvas) :
    ∃ next, (Level.placeAt level room (room.map.map MapRow.ofLine) canvas x y).Yields next ∧
      FilledFrom level anchor (done ++ [(x, y)]) next := by
  have hlt : x < level.width.toNat ∧ y < level.height.toNat := mem_positions.mp (by simp [hsp])
  obtain ⟨c, hc⟩ := hd.exists_charAt hlt.1 hlt.2
  obtain ⟨row, hrow, hch⟩ := exists_row_of_charAt hc
  have hkey := hd.stamp_or_tile hc
  by_cases hf : canvas.get? x y = none
  · have hnot := (h.free hlt.1 hlt.2).mp hf
    have hle := ha.le hc
    have hse : anchor x y = (x, y) := by_contra fun hne => hnot (mem_of_before hsp hle.1 hle.2 hne)
    cases hst : level.stamps.get? (String.singleton c) with
    | none =>
      have ht : (level.tiles.get? (String.singleton c)).isSome = true := by
        simpa [Table.has, hst] using hkey.symm
      obtain ⟨id, hid⟩ := Option.isSome_iff_exists.mp ht
      refine ⟨canvas.set x y id, ?_, h.tile hd ha hs hlt.1 hlt.2 hc hst id⟩
      simp [Level.placeAt, hf, hrow, hch, hst, placeTile, hid]
    | some stamp =>
      have hb : ∀ {x' y'}, (blockAt c stamp (x, y)).Covers x' y' →
          room.charAt x' y' = some c ∧ anchor x' y' = (x, y) := by
        intro x' y' hco
        rw [← hse] at hco
        rw [← hse]
        exact ha.block hc hst hco
      have hso : ∀ x' y', (blockAt c stamp (x, y)).Covers x' y' → room.charAt x' y' = some c :=
        fun _ _ hco => (hb hco).1
      have hfi := stampFits_of_solid hd (hs _ _ hst) hso
      obtain ⟨next, hfl, hfd⟩ := exists_filled_of_free room (room.map.map MapRow.ofLine)
        (String.singleton c) (b := blockAt c stamp (x, y)) hfi h.sized fun x' y' hco => by
          have hlt' := charAt_lt hd.height hd.width (hb hco).1
          rw [h.free hlt'.1 hlt'.2, (hb hco).2]
          exact hse ▸ hnot
      have ht : level.tiles.has (String.singleton c) = false := by
        simpa [Table.has, hst] using hkey.symm
      refine ⟨next, ?_, h.block hd ha hs hc hst hse hfd⟩
      simp only [Level.placeAt, hf, hrow, hch, hst, placeStamp, ht, hfi, if_true,
        yields_bind, yields_reportIf, true_and, exists_const]
      exact ⟨(), yields_checkBlock hso, hfl⟩
  · refine ⟨canvas, ?_, h.skip hd ha hs hsp hf⟩
    obtain ⟨id, hid⟩ := Option.ne_none_iff_exists'.mp hf
    simp [Level.placeAt, hid]

theorem filledFrom_blank (level : Level) (anchor : Nat → Nat → Nat × Nat) :
    FilledFrom level anchor [] (Canvas.blank level.width.toNat level.height.toNat) :=
  ⟨Canvas.sized_blank _ _, by simp⟩

/-- A map whose stamps' cells can be cut into blocks is compiled without an issue. -/
theorem exists_yields_mapBytes (hd : Drawn level room) (ha : Anchors level room anchor)
    (hs : level.StampsWellFormed) : ∃ bytes, (mapBytes level room).Yields bytes := by
  obtain ⟨canvas, hca, hf⟩ : ∃ canvas,
      ((positions level.width.toNat level.height.toNat).foldlM
        (fun canvas (p : Nat × Nat) => placeAt level room (room.map.map MapRow.ofLine) canvas p.1 p.2)
        (Canvas.blank level.width.toNat level.height.toNat)).Yields canvas ∧
      FilledFrom level anchor (positions level.width.toNat level.height.toNat) canvas :=
    exists_yields_foldlM_of_step (filledFrom_blank level anchor)
      fun done p rest canvas hsp h => h.placeAt hd ha hs hsp
  have hr : ∀ p ∈ positions level.width.toNat level.height.toNat,
      ∃ byte, (resolvedAt room (room.map.map MapRow.ofLine) canvas p.1 p.2).Yields byte := by
    rintro ⟨x, y⟩ hmem
    have hlt := mem_positions.mp hmem
    obtain ⟨c, hc⟩ := hd.exists_charAt hlt.1 hlt.2
    have hle := ha.le hc
    have hin : anchor x y ∈ positions level.width.toNat level.height.toNat :=
      mem_positions.mpr ⟨Nat.lt_of_le_of_lt hle.1 hlt.1, Nat.lt_of_le_of_lt hle.2 hlt.2⟩
    obtain ⟨id, hid⟩ := Option.ne_none_iff_exists'.mp
      fun hn => (hf.free hlt.1 hlt.2).mp hn hin
    exact ⟨byteOf id, by simp [resolvedAt, hid]⟩
  obtain ⟨bytes, hb⟩ := exists_yields_mapM hr
  refine ⟨bytes, ?_⟩
  simp only [mapBytes, yields_bind, yields_reportIf, bne_eq_false_iff_eq]
  exact ⟨(), hd.height, _, yields_fittingRows hd.width, canvas, hca, hb⟩

end

theorem exists_yields_mapBytes_iff (hd : Drawn level room) (hs : level.StampsWellFormed) :
    (∃ bytes, (mapBytes level room).Yields bytes) ↔
      ∀ c stamp, level.stamps.get? (String.singleton c) = some stamp → ∃ corners, Partition room c stamp corners := by
  constructor
  · rintro ⟨bytes, hb⟩ c stamp hst
    obtain ⟨ids, hids, _⟩ := mapBytes_yields hb
    obtain ⟨blocks, ht, _⟩ := hids.tiled
    exact ⟨_, ht.partition hst⟩
  · intro h
    obtain ⟨anchor, ha⟩ := exists_anchors h
    exact exists_yields_mapBytes hd ha hs

/-! ### The bytes of a map -/

section

variable {bytes : Bytes} {x y : Nat} {id : Int}

/-- Every cell of a map without issues has the byte of the tile that it shows. -/
theorem exists_shown (hd : Drawn level room) (h : (mapBytes level room).Yields bytes) :
    ∃ blocks, Tiling level room blocks ∧ ∀ {x y c}, room.charAt x y = some c →
      ∃ id, bytes[y * level.width.toNat + x]? = some (byteOf id) ∧ ShowsTile level room blocks x y id := by
  obtain ⟨ids, hids, rfl⟩ := mapBytes_yields h
  obtain ⟨blocks, ht, hs⟩ := hids.tiled
  refine ⟨blocks, ht, fun {x y c} hc => ?_⟩
  have hlt := charAt_lt hd.height hd.width hc
  obtain ⟨id, hid, hsh⟩ := hs x y hlt.1 hlt.2
  exact ⟨id, by rw [List.getElem?_map, hid]; rfl, hsh⟩

theorem byte_of_tile (hd : Drawn level room) (h : (mapBytes level room).Yields bytes)
    (hc : room.charAt x y = some c) (ht : level.tiles.get? (String.singleton c) = some id) :
    bytes[y * level.width.toNat + x]? = some (byteOf id) := by
  obtain ⟨blocks, hti, hs⟩ := exists_shown hd h
  obtain ⟨id', hby, hsh⟩ := hs hc
  have hkey := hd.stamp_or_tile hc
  cases hsh with
  | tile hc' _ ht' =>
    rw [hc, Option.some.injEq] at hc'
    rw [← hc', ht, Option.some.injEq] at ht'
    rw [hby, ht']
  | stamp hb hx =>
    have hst := hti.stands _ hb
    have hch := (hst.solid x y hx).symm.trans hc
    have hsm := hst.stamp
    rw [Option.some.inj hch] at hsm
    simp [Table.has, hsm, ht] at hkey

theorem byte_of_stamp (hd : Drawn level room) (hs : level.StampsWellFormed)
    (h : (mapBytes level room).Yields bytes)
    (hst : level.stamps.get? (String.singleton c) = some stamp) {corners : Set (Nat × Nat)}
    (hpa : Partition room c stamp corners) {p : Nat × Nat} (hp : p ∈ corners) {dx dy : Nat}
    (hx : dx < stamp.width.toNat) (hy : dy < stamp.height.toNat)
    (hid : stamp.tiles[dy * stamp.width.toNat + dx]? = some id) :
    bytes[(p.2 + dy) * level.width.toNat + (p.1 + dx)]? = some (byteOf id) := by
  have hco : (blockAt c stamp p).Covers (p.1 + dx) (p.2 + dy) := by
    dsimp only [Block.Covers, blockAt]
    omega
  have hc := hpa.solid p hp _ _ hco
  obtain ⟨blocks, ht, hsh⟩ := exists_shown hd h
  obtain ⟨id', hby, hsw⟩ := hsh hc
  cases hsw with
  | tile hc' hn _ =>
    rw [hc, Option.some.injEq] at hc'
    rw [← hc', hst] at hn
    cases hn
  | @stamp b hb hbx =>
    rw [hpa.unique (hs _ _ hst) (ht.partition hst)] at hp
    have hsa : b = blockAt c stamp p := ht.eq_of_covers hb hp hbx hco
    rw [hby, hsa, Block.tileAt]
    simp [blockAt, List.getD_eq_getElem?_getD, hid]

end

end Level

end EscapeRoom
