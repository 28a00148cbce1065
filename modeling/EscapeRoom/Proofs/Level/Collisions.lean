import EscapeRoom.Proofs.CollectingRuns
import EscapeRoom.Proofs.Level.Stamps

/-!
# Stamps that meet below a map

A map with too few rows of the right length is filled as far as its rows go, but a stamp near its end may reach below
them. Filling goes on after everything that it reports; only two stamps that meet below the last row make it break off,
because there is no line to report them for. Which stamps are laid at all is told by the characters of the rows alone:
cell after cell, a stamp is laid where its character stands, if it fits and no stamp before it covers the cell.
-/

namespace EscapeRoom.Level

open Report

/-- The rows of a room's map that are as long as the level is wide. -/
def mapRows (level : Level) (room : Room) : List MapRow :=
  (room.map.filter fun line => decide ((line.2.toList.length : Int) = level.width)).map MapRow.ofLine

namespace Block

/-- The block begins where its character stands in the rows of a room, and it lies in the level. -/
structure Starts (b : Block) (level : Level) (room : Room) : Prop where
  char : ((mapRows level room)[b.y]?).bind (·.chars[b.x]?) = some b.char
  stamp : level.stamps.get? (String.singleton b.char) = some b.stamp
  fits : stampFits level b.stamp b.x b.y = true

/-- The block begins before another one in reading order. -/
def Before (b c : Block) : Prop :=
  b.y < c.y ∨ b.y = c.y ∧ b.x < c.x

/-- The block is laid: no block that is laid before it covers its corner. -/
def Laid (level : Level) (room : Room) (b : Block) : Prop :=
  b.Starts level room ∧ ∀ c : Block, c.Before b → c.Laid level room → ¬c.Covers b.x b.y
termination_by (b.y, b.x)
decreasing_by
  rename_i h
  rcases h with h | ⟨h, h'⟩
  · exact .left _ _ h
  · exact h ▸ .right _ h'

end Block

/-- Two blocks that are laid in a room meet in a cell below the last row of its map. -/
def Collides (level : Level) (room : Room) : Prop :=
  ∃ b c : Block, b.Laid level room ∧ c.Laid level room ∧ b ≠ c ∧
    ∃ x y, (mapRows level room).length ≤ y ∧ b.Covers x y ∧ c.Covers x y

variable {level : Level} {room : Room} {canvas next : Canvas} {done rest : List (Nat × Nat)} {x y : Nat}

/-! ### Reading order -/

/-- The cells before a cell in the list of positions are those before it in reading order. -/
theorem mem_done_iff {width height : Nat} (hsplit : positions width height = done ++ (x, y) :: rest) {p : Nat × Nat} :
    p ∈ done ↔ p.1 < width ∧ (p.2 < y ∨ p.2 = y ∧ p.1 < x) := by
  have hlt : x < width ∧ y < height := mem_positions.mp (by simp [hsplit])
  have hpl : ∀ {q : Nat × Nat} {i : Nat}, q.1 < width → q.2 < height →
      ((positions width height)[i]? = some q ↔ q.2 * width + q.1 = i) := by
    intro q i hq hq'
    have hinj := List.getElem?_inj (j := i) (by rw [length_positions]; exact cell_lt hq hq')
      (nodup_positions width height)
    rw [← hinj, getElem?_positions hq hq']
    exact eq_comm
  have hh : y * width + x = done.length := (hpl (q := (x, y)) hlt.1 hlt.2).mp (by simp [hsplit])
  constructor
  · intro hp
    have hin : p.1 < width ∧ p.2 < height := mem_positions.mp (by simp [hsplit, hp])
    obtain ⟨i, hi, hpi⟩ := List.getElem_of_mem hp
    have hid := (hpl (i := i) hin.1 hin.2).mp (by
      rw [hsplit, List.getElem?_append_left hi, List.getElem?_eq_getElem hi, hpi])
    refine ⟨hin.1, ?_⟩
    by_contra ha
    have hrow : y ≤ p.2 := by omega
    have hle := Nat.mul_le_mul_right width hrow
    rcases Nat.lt_or_ge y p.2 with hb | hs
    · have hn := Nat.mul_le_mul_right width hb
      rw [Nat.succ_mul] at hn
      omega
    · have heq : p.2 = y := by omega
      rw [heq] at hid
      omega
  · rintro ⟨hp, hbe⟩
    have hid : p.2 * width + p.1 < done.length := by
      rcases hbe with hab | ⟨hs, hl⟩
      · have hn := Nat.mul_le_mul_right width hab
        rw [Nat.succ_mul] at hn
        omega
      · rw [hs]
        omega
    have hmem := (hpl (q := p) hp (by omega)).mpr rfl
    rw [hsplit, List.getElem?_append_left hid] at hmem
    exact List.mem_of_getElem? hmem

namespace Block

variable {b c : Block}

theorem Laid.starts (h : b.Laid level room) : b.Starts level room := by
  rw [Laid] at h
  exact h.1

theorem Starts.lt (h : b.Starts level room) : b.x < level.width.toNat ∧ b.y < (mapRows level room).length := by
  obtain ⟨row, hrow, hc⟩ := Option.bind_eq_some_iff.mp h.char
  have hx := (List.getElem?_eq_some_iff.mp hc).1
  have hw : (row.chars.length : Int) = level.width := by
    obtain ⟨line, hl, rfl⟩ := List.mem_map.mp (List.mem_of_getElem? hrow)
    exact of_decide_eq_true (List.mem_filter.mp hl).2
  exact ⟨by omega, (List.getElem?_eq_some_iff.mp hrow).1⟩

theorem Starts.eq (hb : b.Starts level room) (hc : c.Starts level room) (hx : b.x = c.x) (hy : b.y = c.y) : b = c := by
  have hch : b.char = c.char := by
    have h := hb.char
    rw [hx, hy, hc.char, Option.some.injEq] at h
    exact h.symm
  have hs : b.stamp = c.stamp := by
    have h := hb.stamp
    rw [hch, hc.stamp, Option.some.injEq] at h
    exact h.symm
  cases b
  cases c
  simp_all

theorem before_or_before (hb : b.Starts level room) (hc : c.Starts level room) (hne : b ≠ c) :
    b.Before c ∨ c.Before b := by
  have hco : ¬(b.x = c.x ∧ b.y = c.y) := fun h => hne (hb.eq hc h.1 h.2)
  unfold Before
  omega

end Block

/-! ### Filling goes on after what it reports -/

/-- A canvas that has been filled as far as some cells of a block: the cells that are filled are those that were filled
before and those of the block. -/
structure FilledOver (canvas : Canvas) (b : Block) (width height : Nat) (done : List ((Nat × Nat) × Nat))
    (c : Canvas) : Prop where
  sized : c.Sized width height
  filled : ∀ x y, x < width →
    (c.get? x y ≠ none ↔ canvas.get? x y ≠ none ∨ ∃ e ∈ done, b.x + e.1.1 = x ∧ b.y + e.1.2 = y)

section

variable {b : Block} {cells : List ((Nat × Nat) × Nat)} {e : (Nat × Nat) × Nat} {rows : List MapRow}

theorem FilledOver.set {c : Canvas} (hf : stampFits level b.stamp b.x b.y = true) (he : e ∈ b.cells) (id : Int)
    (h : FilledOver canvas b level.width.toNat level.height.toNat cells c) :
    FilledOver canvas b level.width.toNat level.height.toNat (cells ++ [e]) (c.set (b.x + e.1.1) (b.y + e.1.2) id) := by
  have hlt := covers_lt hf (Block.covers_of_mem_cells he)
  refine ⟨h.sized.set _ _ _, fun x y hx => ?_⟩
  rw [Canvas.get?_set h.sized id hlt.1 hlt.2 hx]
  simp only [List.mem_append, List.mem_singleton, or_and_right, exists_or, exists_eq_left, ← or_assoc]
  split
  · rename_i hh
    simp [hh]
  · rename_i hh
    rw [h.filled x y hx, or_iff_left hh]

theorem FilledOver.skip {c : Canvas} (hf : stampFits level b.stamp b.x b.y = true) (he : e ∈ b.cells)
    (h : FilledOver canvas b level.width.toNat level.height.toNat cells c)
    (hfu : c.get? (b.x + e.1.1) (b.y + e.1.2) ≠ none) :
    FilledOver canvas b level.width.toNat level.height.toNat (cells ++ [e]) c := by
  have hlt := covers_lt hf (Block.covers_of_mem_cells he)
  refine ⟨h.sized, fun x y hx => ?_⟩
  simp only [List.mem_append, List.mem_singleton, or_and_right, exists_or, exists_eq_left, ← or_assoc]
  rw [← h.filled x y hx]
  constructor
  · exact .inl
  · rintro (hold | ⟨rfl, rfl⟩)
    · exact hold
    · exact hfu

/-- Filling a block breaks off exactly at a cell below the rows that is full already. -/
theorem fillBlock_ends {key : String} (hf : stampFits level b.stamp b.x b.y = true)
    (hs : canvas.Sized level.width.toNat level.height.toNat) :
    (∀ c, (fillBlock room rows key b.stamp b.x b.y canvas).BreaksOff c ↔ c = .belowMap ∧
      ∃ e ∈ b.cells, rows.length ≤ b.y + e.1.2 ∧ canvas.get? (b.x + e.1.1) (b.y + e.1.2) ≠ none) ∧
    ∀ next, (fillBlock room rows key b.stamp b.x b.y canvas).Returns next →
      FilledOver canvas b level.width.toNat level.height.toNat b.cells next := by
  refine breaksOff_foldlM_iff (P := FilledOver canvas b level.width.toNat level.height.toNat)
    ⟨hs, by simp⟩ ?_
  rintro done ⟨⟨dx, dy⟩, i⟩ rest c hce hc
  have hmem : ((dx, dy), i) ∈ b.cells := by
    rw [Block.cells, hce]
    exact List.mem_append_right _ List.mem_cons_self
  -- No cell of a block comes twice, so the cell is full now exactly if it was full before the block.
  have hsa : c.get? (b.x + dx) (b.y + dy) ≠ none ↔ canvas.get? (b.x + dx) (b.y + dy) ≠ none := by
    rw [hc.filled _ _ (covers_lt hf (Block.covers_of_mem_cells hmem)).1, or_iff_left]
    rintro ⟨d, hd, hh⟩
    exact Block.not_mem_of_cells_eq hce hd hh
  have hset := hc.set hf hmem (b.stamp.tiles.getD i 0)
  have hsk := hc.skip hf hmem
  dsimp only at hsa hset hsk ⊢
  rw [← hsa]
  cases hfu : c.get? (b.x + dx) (b.y + dy) with
  | none => simpa [hfu] using hset
  | some id =>
    have hsk := hsk (by simp [hfu])
    cases hrow : rows[b.y + dy]? with
    | none =>
      have hle := List.getElem?_eq_none_iff.mp hrow
      simp [hle, eq_comm]
    | some row =>
      have hlt := (List.getElem?_eq_some_iff.mp hrow).1
      simpa [Nat.not_le.mpr hlt] using hsk

end

/-! ### Stamps laid cell after cell -/

/-- A canvas on which the blocks are laid that begin in some cells. A cell whose turn has not come, and every cell below
the rows, is full exactly if such a block covers it. -/
structure LaidOver (level : Level) (room : Room) (done : List (Nat × Nat)) (canvas : Canvas) : Prop where
  sized : canvas.Sized level.width.toNat level.height.toNat
  filled : ∀ {x y}, x < level.width.toNat → (x, y) ∉ done ∨ (mapRows level room).length ≤ y →
    (canvas.get? x y ≠ none ↔ ∃ b : Block, b.Laid level room ∧ (b.x, b.y) ∈ done ∧ b.Covers x y)

/-- A block that is laid at a cell meets one that is laid before it below the rows. -/
def MeetsAt (level : Level) (room : Room) (p : Nat × Nat) : Prop :=
  ∃ b c : Block, b.Laid level room ∧ c.Laid level room ∧ (b.x, b.y) = p ∧ c.Before b ∧
    ∃ x y, (mapRows level room).length ≤ y ∧ b.Covers x y ∧ c.Covers x y

theorem collides_iff : Collides level room ↔ ∃ p ∈ positions level.width.toNat level.height.toNat, MeetsAt level room p := by
  constructor
  · rintro ⟨b, c, hb, hc, hne, x, y, hy, hbx, hcx⟩
    have hlt : ∀ {b : Block}, b.Laid level room → b.Covers x y →
        (b.x, b.y) ∈ positions level.width.toNat level.height.toNat := by
      intro b hb hbx
      have hin := covers_lt hb.starts.fits hbx
      exact mem_positions.mpr ⟨hb.starts.lt.1, Nat.lt_of_le_of_lt hbx.2.2.1 hin.2⟩
    rcases Block.before_or_before hb.starts hc.starts hne with hbe | hbe
    · exact ⟨_, hlt hc hcx, c, b, hc, hb, rfl, hbe, x, y, hy, hcx, hbx⟩
    · exact ⟨_, hlt hb hbx, b, c, hb, hc, rfl, hbe, x, y, hy, hbx, hcx⟩
  · rintro ⟨p, -, b, c, hb, hc, -, hbe, hm⟩
    refine ⟨b, c, hb, hc, ?_, hm⟩
    rintro rfl
    unfold Block.Before at hbe
    omega

theorem LaidOver.skip (h : LaidOver level room done canvas)
    (hn : ∀ b : Block, b.Laid level room → ¬(b.x = x ∧ b.y = y)) : LaidOver level room (done ++ [(x, y)]) canvas := by
  refine ⟨h.sized, fun {x' y'} hx' ho => ?_⟩
  rw [h.filled hx' (ho.imp_left fun hmem hold => hmem (List.mem_append_left _ hold))]
  refine exists_congr fun b => and_congr_right fun hb => and_congr_left fun _ => ?_
  simp [hn b hb]

theorem LaidOver.block (h : LaidOver level room done canvas) {b : Block} (hb : b.Laid level room) (hx : b.x = x)
    (hy : b.y = y) (hf : FilledOver canvas b level.width.toNat level.height.toNat b.cells next) :
    LaidOver level room (done ++ [(x, y)]) next := by
  have ho : ∀ c : Block, c.Laid level room → ((c.x, c.y) = (x, y) ↔ c = b) := by
    intro c hc
    constructor
    · intro he
      rw [Prod.mk.injEq] at he
      exact hc.starts.eq hb.starts (he.1.trans hx.symm) (he.2.trans hy.symm)
    · rintro rfl
      rw [hx, hy]
  have hco : ∀ x' y', (∃ e ∈ b.cells, b.x + e.1.1 = x' ∧ b.y + e.1.2 = y') ↔ b.Covers x' y' := by
    intro x' y'
    constructor
    · rintro ⟨e, he, rfl, rfl⟩
      exact Block.covers_of_mem_cells he
    · intro hcov
      exact ⟨_, Block.mem_cells_of_covers hcov, Nat.add_sub_cancel' hcov.1, Nat.add_sub_cancel' hcov.2.2.1⟩
  refine ⟨hf.sized, fun {x' y'} hx' hop => ?_⟩
  rw [hf.filled x' y' hx', hco,
    h.filled hx' (hop.imp_left fun hmem hold => hmem (List.mem_append_left _ hold))]
  simp only [List.mem_append, List.mem_singleton]
  constructor
  · rintro (⟨c, hc, hmem, hcov⟩ | hcov)
    · exact ⟨c, hc, .inl hmem, hcov⟩
    · exact ⟨b, hb, .inr ((ho b hb).mpr rfl), hcov⟩
  · rintro ⟨c, hc, hmem | hmem, hcov⟩
    · exact .inl ⟨c, hc, hmem, hcov⟩
    · exact .inr ((ho c hc).mp hmem ▸ hcov)

section

variable (hsplit : positions level.width.toNat level.height.toNat = done ++ (x, y) :: rest)
include hsplit

/-- The blocks laid before a cell are those that begin in the cells before it. -/
theorem mem_done_iff_before {b : Block} (hb : b.Starts level room) {c : Block} (hx : c.x = x) (hy : c.y = y) :
    (b.x, b.y) ∈ done ↔ b.Before c := by
  rw [mem_done_iff hsplit, and_iff_right hb.lt.1, Block.Before, hx, hy]

theorem LaidOver.covered_iff (h : LaidOver level room done canvas) :
    canvas.get? x y ≠ none ↔ ∃ b : Block, b.Laid level room ∧ (b.x, b.y) ∈ done ∧ b.Covers x y := by
  have hlt : x < level.width.toNat ∧ y < level.height.toNat := mem_positions.mp (by simp [hsplit])
  refine h.filled hlt.1 (.inl fun hmem => ?_)
  have hb := ((mem_done_iff hsplit).mp hmem).2
  dsimp only at hb
  omega

theorem LaidOver.laid_iff (h : LaidOver level room done canvas) {b : Block} (hb : b.Starts level room) (hx : b.x = x)
    (hy : b.y = y) : b.Laid level room ↔ canvas.get? x y = none := by
  have hf : canvas.get? x y = none ↔ ¬∃ c : Block, c.Laid level room ∧ (c.x, c.y) ∈ done ∧ c.Covers x y :=
    not_ne_iff.symm.trans (not_congr (h.covered_iff hsplit))
  rw [hf, Block.Laid, and_iff_right hb, hx, hy]
  constructor
  · rintro hf ⟨c, hc, hmem, hco⟩
    exact hf c ((mem_done_iff_before hsplit hc.starts hx hy).mp hmem) hc hco
  · intro hf c hbe hc hco
    exact hf ⟨c, hc, (mem_done_iff_before hsplit hc.starts hx hy).mpr hbe, hco⟩

theorem LaidOver.tile (h : LaidOver level room done canvas)
    (hn : ∀ b : Block, b.Laid level room → ¬(b.x = x ∧ b.y = y)) (hy : y < (mapRows level room).length) (id : Int) :
    LaidOver level room (done ++ [(x, y)]) (canvas.set x y id) := by
  have hlt : x < level.width.toNat ∧ y < level.height.toNat := mem_positions.mp (by simp [hsplit])
  have hs := h.skip hn
  refine ⟨h.sized.set x y id, fun {x' y'} hx' ho => ?_⟩
  have hot : ¬(x = x' ∧ y = y') := by
    rintro ⟨rfl, rfl⟩
    rcases ho with ho | ho
    · exact ho (by simp)
    · omega
  rw [Canvas.get?_set h.sized id hlt.1 hlt.2 hx', if_neg hot]
  exact hs.filled hx' ho

/-- The block that is laid at a cell meets one before it exactly if a cell of it below the rows is full already. -/
theorem LaidOver.meetsAt_iff (h : LaidOver level room done canvas) {b : Block} (hb : b.Laid level room) (hx : b.x = x)
    (hy : b.y = y) : MeetsAt level room (x, y) ↔ ∃ e ∈ b.cells, (mapRows level room).length ≤ b.y + e.1.2 ∧
      canvas.get? (b.x + e.1.1) (b.y + e.1.2) ≠ none := by
  constructor
  · rintro ⟨b', c, hb', hc, hco, hbe, x', y', hbl, hbx, hcx⟩
    rw [Prod.mk.injEq] at hco
    obtain rfl : b' = b := hb'.starts.eq hb.starts (hco.1.trans hx.symm) (hco.2.trans hy.symm)
    refine ⟨_, Block.mem_cells_of_covers hbx, ?_⟩
    dsimp only
    rw [Nat.add_sub_cancel' hbx.1, Nat.add_sub_cancel' hbx.2.2.1]
    refine ⟨hbl, (h.filled (covers_lt hb.starts.fits hbx).1 (.inr hbl)).mpr ⟨c, hc, ?_, hcx⟩⟩
    exact (mem_done_iff_before hsplit hc.starts hx hy).mpr hbe
  · rintro ⟨e, he, hbl, hf⟩
    have hbx := Block.covers_of_mem_cells he
    obtain ⟨c, hc, hmem, hcx⟩ := (h.filled (covers_lt hb.starts.fits hbx).1 (.inr hbl)).mp hf
    exact ⟨b, c, hb, hc, by rw [hx, hy], (mem_done_iff_before hsplit hc.starts hx hy).mp hmem, _, _, hbl, hbx, hcx⟩

/-- At a free cell with the character of a stamp a block is laid if it fits; else the canvas stays as it is. -/
theorem LaidOver.placeStamp (h : LaidOver level room done canvas) {row : MapRow} {ch : Char} {stamp : Stamp}
    (hc : ((mapRows level room)[y]?).bind (·.chars[x]?) = some ch)
    (hs : level.stamps.get? (String.singleton ch) = some stamp) (hf : canvas.get? x y = none) :
    (∀ c, (Level.placeStamp level room (mapRows level room) row (String.singleton ch) stamp x y canvas).BreaksOff c ↔
      c = .belowMap ∧ MeetsAt level room (x, y)) ∧
    ∀ next, (Level.placeStamp level room (mapRows level room) row (String.singleton ch) stamp x y canvas).Returns next →
      LaidOver level room (done ++ [(x, y)]) next := by
  unfold Level.placeStamp
  by_cases hfi : stampFits level stamp x y = true
  · have hb : Block.Laid level room ⟨x, y, ch, stamp⟩ :=
      (h.laid_iff hsplit (b := ⟨x, y, ch, stamp⟩) ⟨hc, hs, hfi⟩ rfl rfl).mpr hf
    obtain ⟨hbr, hr⟩ := @fillBlock_ends level room canvas ⟨x, y, ch, stamp⟩ (mapRows level room)
      (String.singleton ch) hfi h.sized
    have hch : ∀ c, ¬(checkBlock room (mapRows level room) (String.singleton ch) stamp x y).BreaksOff c := by
      intro c
      refine not_breaksOff_forM (fun p c => ?_) _ c
      dsimp only
      split
      · simp
      · simp
    rw [if_pos hfi]
    constructor
    · intro c
      rw [h.meetsAt_iff hsplit hb rfl rfl, ← hbr c]
      exact breaksOff_bind_right (by simp) fun _ => breaksOff_bind_right hch fun _ => Iff.rfl
    · intro next hn
      simp only [returns_bind] at hn
      obtain ⟨_, _, _, _, hn⟩ := hn
      exact h.block hb rfl rfl (hr next hn)
  · have hno : ∀ b : Block, b.Laid level room → ¬(b.x = x ∧ b.y = y) := by
      rintro b hb ⟨rfl, rfl⟩
      have hsa : b.char = ch := Option.some.inj (hb.starts.char.symm.trans hc)
      have hf' := hb.starts.fits
      rw [Option.some.inj (hb.starts.stamp.symm.trans (hsa ▸ hs))] at hf'
      exact hfi hf'
    have hm : ¬MeetsAt level room (x, y) := by
      rintro ⟨b, c, hb, -, hco, -⟩
      exact hno b hb (Prod.mk.inj hco)
    rw [if_neg hfi]
    simpa [hm] using h.skip hno

/-- What is placed at a cell breaks off exactly if a block is laid there that meets one before it below the rows. -/
theorem LaidOver.placeAt (h : LaidOver level room done canvas) :
    (∀ c, (Level.placeAt level room (mapRows level room) canvas x y).BreaksOff c ↔ c = .belowMap ∧
      MeetsAt level room (x, y)) ∧
    ∀ next, (Level.placeAt level room (mapRows level room) canvas x y).Returns next →
      LaidOver level room (done ++ [(x, y)]) next := by
  have hn : (∀ b : Block, b.Laid level room → ¬(b.x = x ∧ b.y = y)) → ¬MeetsAt level room (x, y) := by
    rintro hno ⟨b, c, hb, -, hc, -⟩
    exact hno b hb (Prod.mk.inj hc)
  have hs : (∀ b : Block, b.Laid level room → ¬(b.x = x ∧ b.y = y)) →
      (∀ c, (pure canvas : Compiling Canvas).BreaksOff c ↔ c = .belowMap ∧ MeetsAt level room (x, y)) ∧
      ∀ next, (pure canvas : Compiling Canvas).Returns next → LaidOver level room (done ++ [(x, y)]) next := by
    intro hno
    refine ⟨by simp [hn hno], fun next hne => ?_⟩
    rw [← returns_pure.mp hne]
    exact h.skip hno
  -- The character that a block at this cell has to show, and the stamp of that character.
  have hst : ∀ b : Block, b.Laid level room → b.x = x → b.y = y →
      ((mapRows level room)[y]?).bind (·.chars[x]?) = some b.char := by
    intro b hb hx hy
    rw [← hx, ← hy]
    exact hb.starts.char
  unfold Level.placeAt
  cases hf : canvas.get? x y with
  | some id =>
    refine hs fun b hb hc => ?_
    rw [(h.laid_iff hsplit hb.starts hc.1 hc.2).mp hb] at hf
    cases hf
  | none =>
    cases hrow : (mapRows level room)[y]? with
    | none =>
      refine hs fun b hb hc => ?_
      have hch := hst b hb hc.1 hc.2
      rw [hrow] at hch
      cases hch
    | some row =>
      rw [hrow, Option.bind_some] at hst
      dsimp only
      cases hch : row.chars[x]? with
      | none =>
        refine hs fun b hb hc => ?_
        have hst := hst b hb hc.1 hc.2
        rw [hch] at hst
        cases hst
      | some ch =>
        have hown : ∀ b : Block, b.Laid level room → b.x = x → b.y = y →
            level.stamps.get? (String.singleton ch) = some b.stamp := by
          intro b hb hx hy
          have hst := hst b hb hx hy
          rw [hch, Option.some.injEq] at hst
          exact hst ▸ hb.starts.stamp
        dsimp only
        cases hsm : level.stamps.get? (String.singleton ch) with
        | none =>
          have hno : ∀ b : Block, b.Laid level room → ¬(b.x = x ∧ b.y = y) := by
            intro b hb hc
            have hown := hown b hb hc.1 hc.2
            rw [hsm] at hown
            cases hown
          have ht := fun id => h.tile hsplit hno (List.getElem?_eq_some_iff.mp hrow).1 id
          dsimp only [placeTile]
          cases level.tiles.get? (String.singleton ch) with
          | none => simpa [hn hno] using ht 0
          | some id => simpa [hn hno] using ht id
        | some stamp =>
          refine h.placeStamp hsplit ?_ hsm hf
          rw [hrow, Option.bind_some, hch]

end

theorem laidOver_blank (level : Level) (room : Room) :
    LaidOver level room [] (Canvas.blank level.width.toNat level.height.toNat) :=
  ⟨Canvas.sized_blank _ _, by simp⟩

/-- Filling the map of a room breaks off exactly if two of its stamps meet below its rows. -/
theorem placed_breaksOff {c : Breakdown} : ((positions level.width.toNat level.height.toNat).foldlM
    (fun canvas (p : Nat × Nat) => placeAt level room (mapRows level room) canvas p.1 p.2)
    (Canvas.blank level.width.toNat level.height.toNat)).BreaksOff c ↔ c = .belowMap ∧ Collides level room := by
  rw [collides_iff]
  refine (breaksOff_foldlM_iff (P := LaidOver level room) (laidOver_blank level room) ?_).1 c
  rintro done ⟨x, y⟩ rest canvas hsplit h
  exact h.placeAt hsplit

theorem returns_fittingRows (level : Level) (room : Room) : (fittingRows level room).Returns (mapRows level room) := by
  refine returns_bind.mpr ⟨_, returns_mapM_map (g := fun e => if (e.1.2.toList.length : Int) = level.width
    then some (MapRow.ofLine e.1) else none) ?_, returns_pure.mpr ?_⟩
  · rintro ⟨⟨line, text⟩, i⟩ -
    dsimp only
    split
    · exact returns_pure.mpr rfl
    · exact returns_bind.mpr ⟨(), returns_report _ _, returns_pure.mpr rfl⟩
  · calc ((room.map.zipIdx.map fun e => if (e.1.2.toList.length : Int) = level.width
            then some (MapRow.ofLine e.1) else none).filterMap id)
        = (room.map.zipIdx.map Prod.fst).filterMap fun line =>
            if (line.2.toList.length : Int) = level.width then some (MapRow.ofLine line) else none := by
          rw [List.filterMap_map, List.filterMap_map]
          rfl
      _ = mapRows level room := by
          simp only [List.zipIdx_map_fst, mapRows, ← List.filterMap_eq_map, List.filterMap_filter, decide_eq_true_eq,
            Function.comp_apply]

theorem resolvedAt_ends (room : Room) (rows : List MapRow) (canvas : Canvas) (x y : Nat) :
    (resolvedAt room rows canvas x y).Ends fun _ => True := by
  unfold resolvedAt
  split
  · exact ends_pure trivial
  · exact ⟨0, returns_bind.mpr ⟨(), returns_report _ _, returns_pure.mpr rfl⟩, trivial⟩

/-- The bytes of a map cannot be made exactly if two stamps meet below its rows. -/
theorem mapBytes_breaksOff {c : Breakdown} : (mapBytes level room).BreaksOff c ↔
    c = .belowMap ∧ Collides level room := by
  unfold mapBytes
  rw [(returns_reportIf ()).breaksOff_bind, (returns_fittingRows level room).breaksOff_bind, ← placed_breaksOff]
  refine breaksOff_bind_left fun canvas => ?_
  exact (Ends.mapM fun p _ => resolvedAt_ends room _ canvas p.1 p.2).not_breaksOff c

theorem mapBytes_ends (h : ¬Collides level room) :
    (mapBytes level room).Ends fun bytes => bytes.length = level.width.toNat * level.height.toNat := by
  unfold mapBytes
  obtain ⟨canvas, hca⟩ := exists_returns_iff.mpr fun c hc => h (placed_breaksOff.mp hc).2
  refine (returns_reportIf ()).ends_bind ((returns_fittingRows level room).ends_bind (hca.ends_bind ?_))
  refine (Ends.mapM fun p _ => resolvedAt_ends room _ canvas p.1 p.2).mono fun bytes hb => ?_
  rw [← hb.length_eq, length_positions]

end EscapeRoom.Level
