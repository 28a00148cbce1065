import EscapeRoom.Proofs.CleanRuns
import EscapeRoom.Proofs.Level.Canvas
import EscapeRoom.Proofs.Numbering

/-!
# Stamps as a tiling

A room's map shows a tile in every cell. The cells with the character of a stamp are tiled by blocks of
the stamp's size, each filled with that character, and the tile of such a cell is the one at its place in
the stamp; all other cells show the tile of their character. A map that is compiled without an issue is
tiled in this way, and its bytes are the ids of the tiles.
-/

namespace EscapeRoom

open Report

def Room.charAt (room : Room) (x y : Nat) : Option Char :=
  (room.map[y]?).bind fun row => row.2.toList[x]?

namespace Level

structure Block where
  x : Nat
  y : Nat
  char : Char
  stamp : Stamp

namespace Block

def Covers (b : Block) (x y : Nat) : Prop :=
  b.x ≤ x ∧ x < b.x + b.stamp.width.toNat ∧ b.y ≤ y ∧ y < b.y + b.stamp.height.toNat

def tileAt (b : Block) (x y : Nat) : Int :=
  b.stamp.tiles.getD ((y - b.y) * b.stamp.width.toNat + (x - b.x)) 0

/-- The block shows its stamp's character in all its cells. -/
structure Stands (b : Block) (level : Level) (room : Room) : Prop where
  stamp : level.stamps.get? (String.singleton b.char) = some b.stamp
  solid : ∀ x y, b.Covers x y → room.charAt x y = some b.char

def Disjoint (b c : Block) : Prop :=
  ∀ x y, b.Covers x y → ¬c.Covers x y

end Block

/-- Blocks tile the cells of a room that show characters of stamps. -/
structure Tiling (level : Level) (room : Room) (blocks : List Block) : Prop where
  stands : ∀ b ∈ blocks, b.Stands level room
  disjoint : blocks.Pairwise Block.Disjoint
  total : ∀ x y c, room.charAt x y = some c → level.stamps.has (String.singleton c) = true →
    ∃ b ∈ blocks, b.Covers x y

/-- A cell of a tiled room shows the tile of its character, or a tile of the block that covers it. -/
inductive ShowsTile (level : Level) (room : Room) (blocks : List Block) (x y : Nat) : Int → Prop
  | tile {c : Char} {id : Int} : room.charAt x y = some c →
      level.stamps.get? (String.singleton c) = none →
      level.tiles.get? (String.singleton c) = some id → ShowsTile level room blocks x y id
  | stamp {b : Block} : b ∈ blocks → b.Covers x y →
      ShowsTile level room blocks x y (b.tileAt x y)

structure TileIds (level : Level) (room : Room) (ids : List Int) : Prop where
  height : (room.map.length : Int) = level.height
  width : ∀ row ∈ room.map, (row.2.toList.length : Int) = level.width
  length : ids.length = level.width.toNat * level.height.toNat
  tiled : ∃ blocks, Tiling level room blocks ∧ ∀ x y, x < level.width.toNat →
    y < level.height.toNat →
      ∃ id, ids[y * level.width.toNat + x]? = some id ∧ ShowsTile level room blocks x y id

variable {level : Level} {room : Room} {b : Block} {c : Char} {e : (Nat × Nat) × Nat} {rows : List MapRow} {x y : Nat}
  {canvas next : Canvas}

theorem ShowsTile.mono {blocks more : List Block} {id : Int}
    (h : ShowsTile level room blocks x y id) (hm : blocks ⊆ more) : ShowsTile level room more x y id := by
  cases h with
  | tile hc hs ht => exact .tile hc hs ht
  | stamp hb hxy => exact .stamp (hm hb) hxy

/-! Rows and blocks of a map without issues -/

def MapRow.ofLine (line : Nat × String) : MapRow :=
  ⟨line.1, line.2.toList⟩

theorem fittingRows_yields (h : (fittingRows level room).Yields rows) : rows = room.map.map MapRow.ofLine ∧
      ∀ row ∈ room.map, (row.2.toList.length : Int) = level.width := by
  simp only [fittingRows, yields_bind, yields_pure, yields_mapM] at h
  obtain ⟨found, hf, rfl⟩ := h
  have hr := forall₂_filterMap_id (S := fun e row =>
    row = MapRow.ofLine e.1 ∧ (e.1.2.toList.length : Int) = level.width) (fun e row he => by
      rcases e with ⟨⟨line, text⟩, i⟩
      dsimp only at he
      split at he
      · rename_i hw
        rw [yields_pure] at he
        exact ⟨⟨line, text.toList⟩, he.symm, rfl, hw⟩
      · simp at he) hf
  have hl : List.Forall₂ (fun line row =>
      row = MapRow.ofLine line ∧ (line.2.toList.length : Int) = level.width)
      (room.map.zipIdx.map Prod.fst) (found.filterMap id) :=
    List.forall₂_map_left_iff.mpr hr
  rw [List.zipIdx_map_fst] at hl
  exact eq_map_of_forall₂ hl

theorem charAt_eq : room.charAt x y =
      ((room.map.map MapRow.ofLine)[y]?).bind fun row => row.chars[x]? := by
  rw [List.getElem?_map, Room.charAt]
  cases room.map[y]? <;> rfl

theorem covers_lt (hf : stampFits level b.stamp b.x b.y = true)
    (h : b.Covers x y) : x < level.width.toNat ∧ y < level.height.toNat := by
  simp only [stampFits, Bool.and_eq_true, decide_eq_true_eq] at hf
  obtain ⟨_, hx, _, hy⟩ := h
  omega

theorem checkBlock_yields {stamp : Stamp}
    (h : (checkBlock room rows (String.singleton c) stamp x y).Yields ()) (dx dy : Nat)
    (hx : dx < stamp.width.toNat) (hy : dy < stamp.height.toNat) (row : MapRow)
    (hr : rows[y + dy]? = some row) : row.chars[x + dx]? = some c := by
  have hc := (yields_forM.mp h) (dx, dy) (mem_positions.mpr ⟨hx, hy⟩)
  simp only [hr, yields_reportIf, bne_eq_false_iff_eq, Option.map_eq_some_iff] at hc
  obtain ⟨c', hc', he⟩ := hc
  rw [hc', String.singleton_inj.mp he]

/-! Filling a block -/

/-- The cells of a block relative to its corner, with their numbers. -/
def Block.cells (b : Block) : List ((Nat × Nat) × Nat) :=
  (positions b.stamp.width.toNat b.stamp.height.toNat).zipIdx

theorem Block.covers_of_mem_cells (h : e ∈ b.cells) : b.Covers (b.x + e.1.1) (b.y + e.1.2) := by
  rcases e with ⟨⟨dx, dy⟩, i⟩
  have hd := mem_positions.mp (List.mem_of_getElem? (List.mem_zipIdx_iff_getElem?.mp h))
  dsimp only [Covers] at hd ⊢
  omega

theorem Block.mem_cells_of_covers (h : b.Covers x y) :
    ((x - b.x, y - b.y), (y - b.y) * b.stamp.width.toNat + (x - b.x)) ∈ b.cells := by
  obtain ⟨hx₀, hx, hy₀, hy⟩ := h
  exact mem_zipIdx_positions (by omega) (by omega)

theorem Block.not_mem_of_cells_eq {done rest : List ((Nat × Nat) × Nat)}
    (h : b.cells = done ++ e :: rest) {d : (Nat × Nat) × Nat} (hd : d ∈ done) :
    ¬(b.x + d.1.1 = b.x + e.1.1 ∧ b.y + d.1.2 = b.y + e.1.2) := by
  have hn := nodup_positions b.stamp.width.toNat b.stamp.height.toNat
  have hfst : b.cells.map Prod.fst = positions b.stamp.width.toNat b.stamp.height.toNat :=
    List.zipIdx_map_fst 0 _
  rw [← hfst, h, List.map_append, List.map_cons, List.nodup_append] at hn
  rintro ⟨hx, hy⟩
  refine hn.2.2 d.1 (List.mem_map.mpr ⟨d, hd, rfl⟩) e.1 List.mem_cons_self ?_
  exact Prod.ext (by simpa using hx) (by simpa using hy)

/-- A canvas on which some cells of a block have been filled: they were free before, and all other cells
are as they were. -/
structure Filling (canvas : Canvas) (b : Block) (width height : Nat)
    (done : List ((Nat × Nat) × Nat)) (c : Canvas) : Prop where
  sized : c.Sized width height
  free : ∀ e ∈ done, canvas.get? (b.x + e.1.1) (b.y + e.1.2) = none
  inside : ∀ e ∈ done, c.get? (b.x + e.1.1) (b.y + e.1.2) = some (b.stamp.tiles.getD e.2 0)
  outside : ∀ x y, x < width → (∀ e ∈ done, ¬(b.x + e.1.1 = x ∧ b.y + e.1.2 = y)) →
    c.get? x y = canvas.get? x y

theorem Filling.set {canvas c : Canvas} {done rest : List ((Nat × Nat) × Nat)}
    (hf : stampFits level b.stamp b.x b.y = true) (hc : b.cells = done ++ e :: rest)
    (h : Filling canvas b level.width.toNat level.height.toNat done c)
    (hn : c.get? (b.x + e.1.1) (b.y + e.1.2) = none) :
    Filling canvas b level.width.toNat level.height.toNat (done ++ [e])
      (c.set (b.x + e.1.1) (b.y + e.1.2) (b.stamp.tiles.getD e.2 0)) := by
  have hnew := fun d hd => Block.not_mem_of_cells_eq hc (d := d) hd
  have hlt := covers_lt hf (Block.covers_of_mem_cells (e := e) (by simp [hc]))
  constructor
  · exact h.sized.set _ _ _
  · rw [List.forall_mem_append]
    refine ⟨h.free, ?_⟩
    rw [List.forall_mem_singleton, ← h.outside _ _ hlt.1 hnew]
    exact hn
  · rw [List.forall_mem_append, List.forall_mem_singleton]
    constructor
    · intro d hd
      have hlt' := covers_lt hf (Block.covers_of_mem_cells (e := d) (by simp [hc, hd]))
      rw [Canvas.get?_set h.sized _ hlt.1 hlt.2 hlt'.1,
        if_neg fun hxy => hnew d hd ⟨hxy.1.symm, hxy.2.symm⟩]
      exact h.inside d hd
    · rw [Canvas.get?_set h.sized _ hlt.1 hlt.2 hlt.1, if_pos ⟨rfl, rfl⟩]
  · intro x y hx hfr
    rw [List.forall_mem_append, List.forall_mem_singleton] at hfr
    rw [Canvas.get?_set h.sized _ hlt.1 hlt.2 hx, if_neg hfr.2]
    exact h.outside x y hx hfr.1

theorem fillBlock_filling {key : String} (hf : stampFits level b.stamp b.x b.y = true)
    (hs : canvas.Sized level.width.toNat level.height.toNat)
    (h : (fillBlock room rows key b.stamp b.x b.y canvas).Yields next) :
    Filling canvas b level.width.toNat level.height.toNat b.cells next := by
  refine Report.Yields.foldlM_induction
    (P := Filling canvas b level.width.toNat level.height.toNat) h ⟨hs, by simp, by simp, by simp⟩ ?_
  rintro done ⟨⟨dx, dy⟩, i⟩ rest c c' hce hc hst
  dsimp only at hst
  split at hst
  · rename_i hn
    rw [yields_pure] at hst
    exact hst ▸ hc.set hf hce hn
  · simp at hst
  · simp at hst

structure Filled (canvas : Canvas) (b : Block) (width height : Nat) (next : Canvas) : Prop where
  sized : next.Sized width height
  free : ∀ x y, b.Covers x y → canvas.get? x y = none
  inside : ∀ x y, b.Covers x y → next.get? x y = some (b.tileAt x y)
  outside : ∀ x y, x < width → ¬b.Covers x y → next.get? x y = canvas.get? x y

theorem Filling.filled {width height : Nat}
    (h : Filling canvas b width height b.cells next) : Filled canvas b width height next := by
  refine ⟨h.sized, fun x y hxy => ?_, fun x y hxy => ?_, fun x y hx hxy => h.outside x y hx ?_⟩
  · have hf := h.free _ (Block.mem_cells_of_covers hxy)
    rwa [Nat.add_sub_cancel' hxy.1, Nat.add_sub_cancel' hxy.2.2.1] at hf
  · have hin := h.inside _ (Block.mem_cells_of_covers hxy)
    rwa [Nat.add_sub_cancel' hxy.1, Nat.add_sub_cancel' hxy.2.2.1] at hin
  · rintro e he ⟨rfl, rfl⟩
    exact hxy (Block.covers_of_mem_cells he)

/-! Placing tiles and stamps, cell after cell -/

/-- A canvas on which some blocks and tiles of a room have been placed. -/
structure Placed (level : Level) (room : Room) (blocks : List Block) (canvas : Canvas) : Prop where
  sized : canvas.Sized level.width.toNat level.height.toNat
  stands : ∀ b ∈ blocks, b.Stands level room
  disjoint : blocks.Pairwise Block.Disjoint
  covered : ∀ b ∈ blocks, ∀ x y, b.Covers x y → x < level.width.toNat ∧ canvas.get? x y ≠ none
  shown : ∀ x y id, x < level.width.toNat → y < level.height.toNat →
    canvas.get? x y = some id → ShowsTile level room blocks x y id

variable {blocks : List Block}

theorem placed_blank (level : Level) (room : Room) :
    Placed level room [] (Canvas.blank level.width.toNat level.height.toNat) :=
  ⟨Canvas.sized_blank _ _, by simp, .nil, by simp, by simp⟩

/-- A new block is disjoint from the others, because their cells are filled and its own were free. -/
theorem Placed.block (h : Placed level room blocks canvas) (hb : b.Stands level room)
    (hfi : stampFits level b.stamp b.x b.y = true) (hf : Filled canvas b level.width.toNat level.height.toNat next) :
    Placed level room (b :: blocks) next := by
  constructor
  · exact hf.sized
  · exact List.forall_mem_cons.mpr ⟨hb, h.stands⟩
  · refine List.pairwise_cons.mpr ⟨fun c hc x y hbx hcx => ?_, h.disjoint⟩
    exact (h.covered c hc x y hcx).2 (hf.free x y hbx)
  · refine List.forall_mem_cons.mpr ⟨fun x y hbx => ?_, fun c hc x y hcx => ?_⟩
    · exact ⟨(covers_lt hfi hbx).1, by simp [hf.inside x y hbx]⟩
    · have hx := h.covered c hc x y hcx
      refine ⟨hx.1, ?_⟩
      by_cases hbx : b.Covers x y
      · simp [hf.inside x y hbx]
      · rw [hf.outside x y hx.1 hbx]
        exact hx.2
  · intro x y id hx hy hid
    by_cases hbx : b.Covers x y
    · rw [hf.inside x y hbx, Option.some.injEq] at hid
      exact hid ▸ .stamp List.mem_cons_self hbx
    · rw [hf.outside x y hx hbx] at hid
      exact (h.shown x y id hx hy hid).mono (List.subset_cons_self b blocks)

theorem Placed.tile (h : Placed level room blocks canvas) {id : Int}
    (hx : x < level.width.toNat) (hy : y < level.height.toNat) (hc : room.charAt x y = some c)
    (hs : level.stamps.get? (String.singleton c) = none) (ht : level.tiles.get? (String.singleton c) = some id) :
    Placed level room blocks (canvas.set x y id) := by
  refine ⟨h.sized.set x y id, h.stands, h.disjoint, fun b hb x' y' hb' => ?_,
    fun x' y' id' hx' hy' hid => ?_⟩
  · have hcov := h.covered b hb x' y' hb'
    refine ⟨hcov.1, ?_⟩
    rw [Canvas.get?_set h.sized id hx hy hcov.1]
    split
    · simp
    · exact hcov.2
  · rw [Canvas.get?_set h.sized id hx hy hx'] at hid
    split at hid
    · rename_i he
      rw [Option.some.injEq] at hid
      rcases he with ⟨rfl, rfl⟩
      exact hid ▸ .tile hc hs ht
    · exact h.shown x' y' id' hx' hy' hid

theorem Placed.placeStamp (h : Placed level room blocks canvas) (hh : room.map.length = level.height)
    {row : MapRow} {stamp : Stamp} (hs : level.stamps.get? (String.singleton c) = some stamp)
    (hy : (Level.placeStamp level room (room.map.map MapRow.ofLine) row (String.singleton c) stamp x y
      canvas).Yields next) : ∃ b, Placed level room (b :: blocks) next := by
  simp only [Level.placeStamp, yields_bind, yields_reportIf] at hy
  obtain ⟨⟨⟩, _, hy⟩ := hy
  split at hy
  · rename_i hf
    simp only [yields_bind] at hy
    obtain ⟨⟨⟩, hc, hfi⟩ := hy
    let b : Block := ⟨x, y, c, stamp⟩
    refine ⟨b, h.block ⟨hs, fun x' y' hb => ?_⟩ hf (fillBlock_filling (b := b) hf h.sized hfi).filled⟩
    have hlt := (covers_lt (b := b) hf hb).2
    have hrow : y' < (room.map.map MapRow.ofLine).length := by
      rw [List.length_map]
      omega
    obtain ⟨hx₀, hx', hy₀, hy'⟩ := hb
    dsimp only [b] at hx₀ hx' hy₀ hy'
    have hch := checkBlock_yields hc (x' - x) (y' - y) (by omega) (by omega)
      (room.map.map MapRow.ofLine)[y']
      (by rw [Nat.add_sub_cancel' hy₀]; exact List.getElem?_eq_getElem hrow)
    rw [Nat.add_sub_cancel' hx₀] at hch
    rw [charAt_eq, List.getElem?_eq_getElem hrow]
    exact hch
  · simp at hy

theorem Placed.placeAt (h : Placed level room blocks canvas) (hh : room.map.length = level.height)
    (hx : x < level.width.toNat) (hy : y < level.height.toNat)
    (hn : (Level.placeAt level room (room.map.map MapRow.ofLine) canvas x y).Yields next) :
    ∃ blocks, Placed level room blocks next := by
  unfold Level.placeAt at hn
  split at hn
  · rename_i row _ hrow
    split at hn
    · rw [yields_pure] at hn
      exact ⟨blocks, hn ▸ h⟩
    · rename_i c hc
      have hch : room.charAt x y = some c := by
        rw [charAt_eq, hrow]
        exact hc
      dsimp only at hn
      split at hn
      · rename_i stamp hs
        obtain ⟨b, hb⟩ := h.placeStamp hh hs hn
        exact ⟨b :: blocks, hb⟩
      · rename_i hs
        unfold placeTile at hn
        split at hn
        · rename_i id ht
          rw [yields_pure] at hn
          exact ⟨blocks, hn ▸ h.tile hx hy hch hs ht⟩
        · simp at hn
  · rw [yields_pure] at hn
    exact ⟨blocks, hn ▸ h⟩

/-- A cell that shows a character lies in the level if all rows have its size. -/
theorem charAt_lt (hh : (room.map.length : Int) = level.height)
    (hw : ∀ row ∈ room.map, (row.2.toList.length : Int) = level.width)
    (h : room.charAt x y = some c) : x < level.width.toNat ∧ y < level.height.toNat := by
  obtain ⟨row, hrow, hc⟩ := Option.bind_eq_some_iff.mp h
  have hy := (List.getElem?_eq_some_iff.mp hrow).1
  have hx := (List.getElem?_eq_some_iff.mp hc).1
  have hlen := hw row (List.mem_of_getElem? hrow)
  omega

theorem Placed.tiling (h : Placed level room blocks canvas)
    (hh : (room.map.length : Int) = level.height)
    (hw : ∀ row ∈ room.map, (row.2.toList.length : Int) = level.width)
    (hf : ∀ p ∈ positions level.width.toNat level.height.toNat, canvas.get? p.1 p.2 ≠ none) :
    Tiling level room blocks := by
  refine ⟨h.stands, h.disjoint, fun x y c hc hs => ?_⟩
  have hlt := charAt_lt hh hw hc
  obtain ⟨id, hid⟩ := Option.ne_none_iff_exists'.mp (hf (x, y) (mem_positions.mpr hlt))
  cases h.shown x y id hlt.1 hlt.2 hid with
  | tile hc' hs' _ =>
    rw [hc, Option.some.injEq] at hc'
    rw [Table.has, hc', hs'] at hs
    simp at hs
  | stamp hb hxy => exact ⟨_, hb, hxy⟩

theorem mapBytes_yields {bytes : Bytes} (h : (mapBytes level room).Yields bytes) :
    ∃ ids, TileIds level room ids ∧ bytes = ids.map byteOf := by
  simp only [mapBytes, yields_bind, yields_reportIf, bne_eq_false_iff_eq] at h
  obtain ⟨⟨⟩, hh, rows, hr, canvas, hf, hce⟩ := h
  obtain ⟨rfl, hw⟩ := fittingRows_yields hr
  obtain ⟨blocks, hpl⟩ : ∃ blocks, Placed level room blocks canvas := by
    refine Report.Yields.foldlM_induction (P := fun _ c => ∃ blocks, Placed level room blocks c) hf
      ⟨[], placed_blank level room⟩ ?_
    rintro done ⟨x, y⟩ rest c c' hs ⟨blocks, hc⟩ hst
    have hxy : (x, y) ∈ positions level.width.toNat level.height.toNat := by simp [hs]
    rw [mem_positions] at hxy
    exact hc.placeAt hh hxy.1 hxy.2 hst
  have hre : List.Forall₂ (fun p byte => byte = byteOf ((canvas.get? p.1 p.2).getD 0) ∧
      canvas.get? p.1 p.2 ≠ none) (positions level.width.toNat level.height.toNat) bytes := by
    refine (yields_mapM.mp hce).imp fun p byte hp => ?_
    rcases p with ⟨x, y⟩
    dsimp only [resolvedAt] at hp
    split at hp
    · rename_i id hid
      rw [yields_pure] at hp
      simp [hid, hp]
    · simp at hp
  obtain ⟨rfl, hfi⟩ := eq_map_of_forall₂ hre
  refine ⟨(positions level.width.toNat level.height.toNat).map fun p => (canvas.get? p.1 p.2).getD 0,
    ⟨hh, hw, by simp, blocks, hpl.tiling hh hw hfi, ?_⟩, by simp⟩
  intro x y hx hy
  obtain ⟨id, hid⟩ := Option.ne_none_iff_exists'.mp (hfi (x, y) (mem_positions.mpr ⟨hx, hy⟩))
  refine ⟨id, ?_, hpl.shown x y id hx hy hid⟩
  rw [List.getElem?_map, getElem?_positions hx hy, Option.map_some, hid, Option.getD_some]

end Level

end EscapeRoom
