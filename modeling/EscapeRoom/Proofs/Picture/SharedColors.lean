import EscapeRoom.Proofs.Picture.Multicolor

/-!
# The best shared colours

The two shared colours of a picture are searched among the pairs of different colours other than the background.
Blocks that are alike are encoded once and weighed by their number, which comes to the same as encoding every block.
Other pairs of colours need not be searched, because a larger palette never shows more dots wrong.
-/

namespace EscapeRoom.Multicolor

/-- How many dots are wrong in all blocks together. -/
def cellsError (s : SharedColors) (cells : List CharCell) : Nat :=
  cells.foldl (fun e cell => e + (encode s cell).error) 0

theorem cellsError_cons (s : SharedColors) (cell : CharCell) (cells : List CharCell) :
    cellsError s (cell :: cells) = (encode s cell).error + cellsError s cells := by
  rw [cellsError, List.foldl_cons, foldl_add, Nat.zero_add]
  rfl

/-! ### Weights -/

theorem totalError_cons (s : SharedColors) (e : List (Nat × Nat) × Nat) (t : Table (List (Nat × Nat)) Nat) :
    totalError s (e :: t) = (bestLocal s e.1).2 * e.2 + totalError s t := by
  have hf : ∀ t, totalError s t = t.foldl (fun n e => n + (bestLocal s e.1).2 * e.2) 0 := fun _ => rfl
  rw [hf, hf, List.foldl_cons, foldl_add, Nat.zero_add]

theorem totalError_put (s : SharedColors) (t : Table (List (Nat × Nat)) Nat) (pairs : List (Nat × Nat)) :
    totalError s (t.put pairs (t.getD pairs 0 + 1)) = totalError s t + (bestLocal s pairs).2 := by
  induction t with
  | nil => simp [Table.put, Table.getD, totalError_cons, Nat.add_comm]
  | cons e t ih =>
    by_cases he : e.1 = pairs
    · subst he
      have hget : Table.getD (e :: t) e.1 0 = e.2 := by simp [Table.getD, Table.get?_cons]
      rw [Table.put, if_pos rfl, hget, totalError_cons, totalError_cons]
      dsimp only
      rw [Nat.mul_add]
      omega
    · have hget : Table.getD (e :: t) pairs 0 = Table.getD t pairs 0 := by simp [Table.getD, Table.get?_cons, he]
      rw [Table.put, if_neg he, hget, totalError_cons, totalError_cons, ih]
      omega

theorem totalError_tally (s : SharedColors) (blocks : List (List (Nat × Nat))) :
    totalError s (tally blocks) = blocks.foldl (fun e pairs => e + (bestLocal s pairs).2) 0 := by
  suffices h : ∀ t, totalError s (blocks.foldl (fun t pairs => t.put pairs (t.getD pairs 0 + 1)) t) =
      totalError s t + blocks.foldl (fun e pairs => e + (bestLocal s pairs).2) 0 from (h []).trans (Nat.zero_add _)
  induction blocks with
  | nil => exact fun t => rfl
  | cons pairs blocks ih =>
    intro t
    rw [List.foldl_cons, List.foldl_cons, ih, totalError_put, foldl_add _ blocks (0 + _)]
    omega

theorem totalError_cells (s : SharedColors) (cells : List CharCell) :
    totalError s (tally (cells.map fun c => c.flatMap pairsOf)) = cellsError s cells := by
  rw [totalError_tally, List.foldl_map]
  rfl

/-! ### Larger palettes -/

/-- Every colour of a palette is in another palette, whatever local colour is added to both. -/
def Within (s t : SharedColors) : Prop :=
  ∀ lc code, ∃ code', s.color lc code = t.color lc code'

theorem within_of_mem {background a b a' b' : Nat} (ha : a = background ∨ a = a' ∨ a = b')
    (hb : b = background ∨ b = a' ∨ b = b') : Within ⟨background, a, b⟩ ⟨background, a', b'⟩ := by
  have hf : ∀ {c}, (c = background ∨ c = a' ∨ c = b') → ∀ lc,
      ∃ code', c = SharedColors.color ⟨background, a', b'⟩ lc code' := by
    rintro c (rfl | rfl | rfl) lc
    · exact ⟨0, rfl⟩
    · exact ⟨1, rfl⟩
    · exact ⟨2, rfl⟩
  intro lc code
  rcases code with _ | _ | _ | code
  · exact ⟨0, rfl⟩
  · exact hf ha lc
  · exact hf hb lc
  · exact ⟨3, rfl⟩

variable {s t : SharedColors}

theorem Within.pairError_le (h : Within s t) (lc : Nat) (p : Nat × Nat) : pairError t lc p ≤ pairError s lc p := by
  obtain ⟨code, hc⟩ := h lc (pairCode s lc p)
  rw [← (pairCode_spec s lc p).1, hc]
  exact pairError_le_pairCost t lc p code

theorem Within.pairsError_le (h : Within s t) (pairs : List (Nat × Nat)) (lc : Nat) :
    pairsError t pairs lc ≤ pairsError s pairs lc := by
  induction pairs with
  | nil => exact Nat.le_refl _
  | cons p pairs ih =>
    rw [pairsError_cons, pairsError_cons]
    exact Nat.add_le_add (h.pairError_le lc p) ih

theorem Within.encode_error_le (h : Within s t) (cell : CharCell) : (encode t cell).error ≤ (encode s cell).error := by
  obtain ⟨hlc, he, _, _⟩ := bestLocal_spec s (cell.flatMap pairsOf)
  obtain ⟨_, _, hl, _⟩ := bestLocal_spec t (cell.flatMap pairsOf)
  calc (encode t cell).error ≤ pairsError t (cell.flatMap pairsOf) (encode s cell).lc := hl _ hlc
    _ ≤ pairsError s (cell.flatMap pairsOf) (encode s cell).lc := h.pairsError_le _ _
    _ = (encode s cell).error := he.symm

theorem Within.cellsError_le (h : Within s t) (cells : List CharCell) : cellsError t cells ≤ cellsError s cells := by
  induction cells with
  | nil => exact Nat.le_refl _
  | cons cell cells ih =>
    rw [cellsError_cons, cellsError_cons]
    exact Nat.add_le_add (h.encode_error_le cell) ih

/-! ### Pairs of colours -/

/-- Two of the sixteen colours other than the background, the smaller one first. -/
structure IsColorPair (background : Nat) (p : Nat × Nat) : Prop where
  lt : p.1 < p.2
  bound : p.2 < 16
  fst_ne : p.1 ≠ background
  snd_ne : p.2 ≠ background

/-- The order of pairs by their first colours, and by their second colours where these are equal. -/
def LexLt (p q : Nat × Nat) : Prop :=
  p.1 < q.1 ∨ p.1 = q.1 ∧ p.2 < q.2

theorem mem_colorPairs {background : Nat} {p : Nat × Nat} :
    p ∈ colorPairs background ↔ IsColorPair background p := by
  simp only [colorPairs, List.mem_flatMap, List.mem_map, List.mem_filter, List.mem_range, bne_iff_ne,
    decide_eq_true_eq]
  constructor
  · rintro ⟨a, ⟨_, ha⟩, b, ⟨⟨hb, hb'⟩, hab⟩, rfl⟩
    exact ⟨hab, hb, ha, hb'⟩
  · intro h
    exact ⟨p.1, ⟨Nat.lt_trans h.lt h.bound, h.fst_ne⟩, p.2, ⟨⟨h.bound, h.snd_ne⟩, h.lt⟩, rfl⟩

theorem pairwise_colorPairs (background : Nat) : (colorPairs background).Pairwise LexLt := by
  have hc : ((List.range 16).filter (· != background)).Pairwise (· < ·) := List.pairwise_lt_range.filter _
  rw [colorPairs, List.pairwise_flatMap]
  refine ⟨fun a _ => ?_, hc.imp fun hlt p hp q hq => ?_⟩
  · rw [List.pairwise_map]
    exact (hc.filter _).imp fun hlt => .inr ⟨rfl, hlt⟩
  · obtain ⟨_, _, rfl⟩ := List.mem_map.mp hp
    obtain ⟨_, _, rfl⟩ := List.mem_map.mp hq
    exact .inl hlt

theorem exists_colorPair_of_color (background : Nat) {x : Nat} (hx : x < 16) :
    ∃ p, IsColorPair background p ∧ (x = background ∨ x = p.1 ∨ x = p.2) := by
  -- Of three colours at least one is neither the background nor any other colour.
  have hf : ∀ z, ∃ y < 16, y ≠ background ∧ y ≠ z := by
    intro z
    by_contra hn
    have hall : ∀ y < 16, y = background ∨ y = z := fun y hy => by
      by_contra h
      exact hn ⟨y, hy, by omega, by omega⟩
    have h₀ := hall 0 (by omega)
    have h₁ := hall 1 (by omega)
    have h₂ := hall 2 (by omega)
    omega
  obtain ⟨z, hz, hzb, hzx⟩ : ∃ z < 16, z ≠ background ∧ (x = background ∨ x = z) := by
    by_cases hxb : x = background
    · obtain ⟨z, hz, hzb, _⟩ := hf x
      exact ⟨z, hz, hzb, .inl hxb⟩
    · exact ⟨x, hx, hxb, .inr rfl⟩
  obtain ⟨y, hy, hyb, hyz⟩ := hf z
  rcases Nat.lt_or_gt_of_ne hyz with hlt | hgt
  · exact ⟨(y, z), ⟨hlt, hz, hyb, hzb⟩, hzx.imp_right .inr⟩
  · exact ⟨(z, y), ⟨hgt, hy, hzb, hyb⟩, hzx.imp_right .inl⟩

/-- Whatever two shared colours are taken, some pair that is searched has a palette with both of them. -/
theorem exists_colorPair_within (background : Nat) {a b : Nat} (ha : a < 16) (hb : b < 16) :
    ∃ p, IsColorPair background p ∧ Within ⟨background, a, b⟩ ⟨background, p.1, p.2⟩ := by
  by_cases hab : a = background
  · obtain ⟨p, hp, hin⟩ := exists_colorPair_of_color background hb
    exact ⟨p, hp, within_of_mem (.inl hab) hin⟩
  by_cases hbb : b = background
  · obtain ⟨p, hp, hin⟩ := exists_colorPair_of_color background ha
    exact ⟨p, hp, within_of_mem hin (.inl hbb)⟩
  rcases Nat.lt_trichotomy a b with hlt | heq | hgt
  · exact ⟨(a, b), ⟨hlt, hb, hab, hbb⟩, within_of_mem (.inr (.inl rfl)) (.inr (.inr rfl))⟩
  · obtain ⟨p, hp, hin⟩ := exists_colorPair_of_color background ha
    exact ⟨p, hp, within_of_mem hin (heq ▸ hin)⟩
  · exact ⟨(b, a), ⟨hgt, ha, hbb, hab⟩, within_of_mem (.inr (.inr rfl)) (.inr (.inl rfl))⟩

/-! ### The search -/

theorem pairError_le_two (s : SharedColors) (lc : Nat) (p : Nat × Nat) : pairError s lc p ≤ 2 := by
  refine Nat.le_trans (pairError_le_pairCost s lc p 0) ?_
  unfold pairCost
  split <;> split <;> omega

theorem pairsError_le_length (s : SharedColors) (pairs : List (Nat × Nat)) (lc : Nat) :
    pairsError s pairs lc ≤ 2 * pairs.length := by
  induction pairs with
  | nil => exact Nat.le_refl 0
  | cons p pairs ih =>
    rw [pairsError_cons, List.length_cons]
    have hp := pairError_le_two s lc p
    omega

theorem length_flatMap_pairsOf {cell : CharCell} (h : ∀ row ∈ cell, row.length = 8) :
    (cell.flatMap pairsOf).length = 4 * cell.length := by
  induction cell with
  | nil => rfl
  | cons row cell ih =>
    rw [List.forall_mem_cons] at h
    obtain ⟨p₀, p₁, p₂, p₃, rfl⟩ := exists_pairs h.1
    rw [List.flatMap_cons, List.length_append, ih h.2, List.length_cons, pairsOf_dotsOf]
    simp only [List.length_cons, List.length_nil]
    omega

theorem encode_error_le {cell : CharCell} (hc : cell.WellFormed) (s : SharedColors) :
    (encode s cell).error ≤ 64 := by
  obtain ⟨_, he, _, _⟩ := bestLocal_spec s (cell.flatMap pairsOf)
  have hle := pairsError_le_length s (cell.flatMap pairsOf) (encode s cell).lc
  rw [length_flatMap_pairsOf hc.width, hc.height] at hle
  exact Nat.le_trans (Nat.le_of_eq he) hle

theorem cellsError_le {cells : List CharCell} (hc : ∀ cell ∈ cells, cell.WellFormed) (s : SharedColors) :
    cellsError s cells ≤ 64 * cells.length := by
  induction cells with
  | nil => exact Nat.le_refl 0
  | cons cell cells ih =>
    rw [List.forall_mem_cons] at hc
    have hce := encode_error_le hc.1 s
    have hr := ih hc.2
    rw [cellsError_cons, List.length_cons]
    omega

theorem chooseShared_eq (cells : List CharCell) (background : Nat) :
    chooseShared cells background =
      (leastFrom (fun p => cellsError ⟨background, p.1, p.2⟩ cells) ((colorPairs background).headD (0, 1))
        errorLimit (colorPairs background)).1 := by
  have hc : (fun p : Nat × Nat => cellsError ⟨background, p.1, p.2⟩ cells) =
      fun p => totalError ⟨background, p.1, p.2⟩ (tally (cells.map fun c => c.flatMap pairsOf)) :=
    funext fun p => (totalError_cells _ cells).symm
  rw [hc]
  rfl

/-- The chosen pair is the first pair of least error among those that are searched. -/
theorem chooseShared_isFirstLeast {cells : List CharCell} (hc : ∀ cell ∈ cells, cell.WellFormed)
    (hs : 64 * cells.length < errorLimit) (background : Nat) :
    IsFirstLeast (fun p => cellsError ⟨background, p.1, p.2⟩ cells) (colorPairs background)
      (chooseShared cells background) := by
  obtain ⟨p, hp, _⟩ := exists_colorPair_of_color background (show 0 < 16 by decide)
  have hlt : cellsError ⟨background, p.1, p.2⟩ cells < errorLimit :=
    Nat.lt_of_le_of_lt (cellsError_le hc _) hs
  obtain ⟨a, hf, hl⟩ := @leastFrom_of_lt (Nat × Nat)
    (fun p => cellsError ⟨background, p.1, p.2⟩ cells) _ p ((colorPairs background).headD (0, 1)) _
    (mem_colorPairs.mpr hp) hlt
  rw [chooseShared_eq, hf]
  exact hl

/-- The two shared colours are different colours other than the background, no two colours at all leave fewer dots
wrong, and of the pairs that leave as few wrong they are the first one. -/
theorem chooseShared_optimal {cells : List CharCell} (hcells : ∀ cell ∈ cells, cell.WellFormed)
    (hsize : 64 * cells.length < 1000000000) (background : Nat) :
    let p := chooseShared cells background
    IsColorPair background p ∧
      (∀ a < 16, ∀ b < 16, cellsError ⟨background, p.1, p.2⟩ cells ≤ cellsError ⟨background, a, b⟩ cells) ∧
      ∀ q, IsColorPair background q →
        cellsError ⟨background, q.1, q.2⟩ cells = cellsError ⟨background, p.1, p.2⟩ cells → p = q ∨ LexLt p q := by
  intro p
  have hleast := chooseShared_isFirstLeast hcells hsize background
  refine ⟨mem_colorPairs.mp hleast.mem, fun a ha b hb => ?_, fun q hq heq => ?_⟩
  · obtain ⟨q, hq, hwithin⟩ := exists_colorPair_within background ha hb
    exact Nat.le_trans (hleast.le (mem_colorPairs.mpr hq)) (hwithin.cellsError_le cells)
  · obtain ⟨before, after, hsplit, hbefore, _⟩ := hleast
    have hsorted := pairwise_colorPairs background
    have hmem := mem_colorPairs.mpr hq
    rw [hsplit] at hsorted hmem
    rcases List.mem_append.mp hmem with hmem | hmem
    · exact absurd heq (Nat.ne_of_gt (hbefore q hmem))
    · rcases List.mem_cons.mp hmem with rfl | hmem
      · exact .inl rfl
      · exact .inr ((List.pairwise_cons.mp (List.pairwise_append.mp hsorted).2.1).1 q hmem)

theorem chooseShared_optimal_patchwork :
    (∀ cell ∈ [patchwork, patchwork], cell.WellFormed) ∧
      IsColorPair 0 (chooseShared [patchwork, patchwork] 0) ∧
      cellsError ⟨0, (chooseShared [patchwork, patchwork] 0).1, (chooseShared [patchwork, patchwork] 0).2⟩
        [patchwork, patchwork] ≤ 34 := by
  have hcells : ∀ cell ∈ [patchwork, patchwork], cell.WellFormed := by
    simp [patchwork_wellFormed]
  have herror : cellsError ⟨0, 2, 6⟩ [patchwork, patchwork] = 34 := by decide
  obtain ⟨hpair, hleast, _⟩ := chooseShared_optimal hcells (by decide) 0
  exact ⟨hcells, hpair, herror ▸ hleast 2 (by decide) 6 (by decide)⟩

end EscapeRoom.Multicolor
