import Mathlib.Data.List.Basic
import EscapeRoom.Picture.Multicolor

/-!
# The best encoding of a block of dots

A block of eight by eight dots is encoded with four codes for pairs of dots and a local colour. Drawing the
character gives a block again, and the error of the encoding is the number of dots that it shows wrong. No other
character with any local colour shows fewer dots wrong, and encoding what a character shows gives the character.
-/

namespace EscapeRoom

structure CharCell.WellFormed (cell : CharCell) : Prop where
  height : cell.length = 8
  width : ∀ row ∈ cell, row.length = 8
  byte : ∀ row ∈ cell, ∀ dot ∈ row, dot < 256

/-- How many dots of a row are not as they are shown. -/
def Multicolor.wrongInRow (row shown : List Nat) : Nat :=
  (row.zip shown).countP fun p => decide (p.1 ≠ p.2)

/-- How many dots of a block are not as they are shown. -/
def CharCell.wrongDots (cell shown : CharCell) : Nat :=
  Multicolor.wrongInRow cell.flatten shown.flatten

structure SharedColors.WellFormed (s : SharedColors) : Prop where
  background : s.background < 256
  multicolor1 : s.multicolor1 < 256
  multicolor2 : s.multicolor2 < 256

theorem SharedColors.WellFormed.color_lt {s : SharedColors} (hs : s.WellFormed) {lc : Nat} (hlc : lc < 256)
    (code : Nat) : s.color lc code < 256 := by
  unfold SharedColors.color
  split
  · exact hs.background
  · exact hs.multicolor1
  · exact hs.multicolor2
  · exact hlc

namespace Multicolor

variable {s : SharedColors} {lc : Nat} {p : Nat × Nat} {row : List Nat} {cell : CharCell}

/-! ### Pairs of dots -/

theorem pairError_le_pairCost (s : SharedColors) (lc : Nat) (p : Nat × Nat) (code : Nat) :
    pairError s lc p ≤ pairCost p (s.color lc code) := by
  unfold pairError SharedColors.color
  split <;> omega

theorem pairCode_lt (s : SharedColors) (lc : Nat) (p : Nat × Nat) : pairCode s lc p < 4 := by
  unfold pairCode
  dsimp only
  repeat' split
  all_goals decide

theorem pairCode_spec (s : SharedColors) (lc : Nat) (p : Nat × Nat) :
    pairCost p (s.color lc (pairCode s lc p)) = pairError s lc p ∧
      ∀ code < pairCode s lc p, pairError s lc p < pairCost p (s.color lc code) := by
  have hle := pairError_le_pairCost s lc p
  have hlt : ∀ {code}, pairCost p (s.color lc code) ≠ pairError s lc p →
      pairError s lc p < pairCost p (s.color lc code) := fun {code} h => Nat.lt_of_le_of_ne (hle code) h.symm
  by_cases h₀ : pairCost p s.background = pairError s lc p
  · have hc : pairCode s lc p = 0 := by simp [pairCode, h₀]
    rw [hc]
    exact ⟨h₀, fun code hc => absurd hc (Nat.not_lt_zero code)⟩
  by_cases h₁ : pairCost p s.multicolor1 = pairError s lc p
  · have hc : pairCode s lc p = 1 := by simp [pairCode, h₀, h₁]
    rw [hc]
    refine ⟨h₁, fun code hc => ?_⟩
    obtain rfl : code = 0 := by omega
    exact hlt h₀
  by_cases h₂ : pairCost p s.multicolor2 = pairError s lc p
  · have hc : pairCode s lc p = 2 := by simp [pairCode, h₀, h₁, h₂]
    rw [hc]
    refine ⟨h₂, fun code hc => ?_⟩
    obtain rfl | rfl : code = 0 ∨ code = 1 := by omega
    · exact hlt h₀
    · exact hlt h₁
  · have hc : pairCode s lc p = 3 := by simp [pairCode, h₀, h₁, h₂]
    have h₃ : pairCost p lc = pairError s lc p := by
      unfold pairError at h₀ h₁ h₂ ⊢
      omega
    rw [hc]
    refine ⟨h₃, fun code hc => ?_⟩
    obtain rfl | rfl | rfl : code = 0 ∨ code = 1 ∨ code = 2 := by omega
    · exact hlt h₀
    · exact hlt h₁
    · exact hlt h₂

theorem foldl_add {α : Type} (f : α → Nat) (l : List α) (n : Nat) :
    l.foldl (fun e a => e + f a) n = n + l.foldl (fun e a => e + f a) 0 := by
  induction l generalizing n with
  | nil => rfl
  | cons a l ih =>
    rw [List.foldl_cons, List.foldl_cons, ih, ih (0 + f a)]
    omega

theorem pairsError_cons (s : SharedColors) (lc : Nat) (p : Nat × Nat) (pairs : List (Nat × Nat)) :
    pairsError s (p :: pairs) lc = pairError s lc p + pairsError s pairs lc := by
  rw [pairsError, List.foldl_cons, foldl_add, Nat.zero_add]
  rfl

theorem pairsError_append (s : SharedColors) (lc : Nat) (as bs : List (Nat × Nat)) :
    pairsError s (as ++ bs) lc = pairsError s as lc + pairsError s bs lc := by
  induction as with
  | nil => simp [pairsError]
  | cons p as ih =>
    rw [List.cons_append, pairsError_cons, pairsError_cons, ih]
    omega

/-! ### Rows -/

def dotsOf (pairs : List (Nat × Nat)) : List Nat :=
  pairs.flatMap fun p => [p.1, p.2]

theorem pairsOf_dotsOf (pairs : List (Nat × Nat)) : pairsOf (dotsOf pairs) = pairs := by
  induction pairs with
  | nil => rfl
  | cons p pairs ih => exact congrArg (p :: ·) ih

theorem dotsOf_pairsOf {n : Nat} (h : row.length = 2 * n) : dotsOf (pairsOf row) = row ∧ (pairsOf row).length = n := by
  induction n generalizing row with
  | zero =>
    obtain rfl : row = [] := List.eq_nil_of_length_eq_zero h
    exact ⟨rfl, rfl⟩
  | succ n ih =>
    obtain ⟨a, tail, rfl⟩ := List.exists_cons_of_length_eq_add_one h
    obtain ⟨b, rest, rfl⟩ := List.exists_cons_of_length_eq_add_one (Nat.succ.inj h)
    obtain ⟨hdo, hl⟩ := ih (Nat.succ.inj (Nat.succ.inj h))
    exact ⟨congrArg (fun dots => a :: b :: dots) hdo, congrArg Nat.succ hl⟩

theorem exists_pairs (h : row.length = 8) : ∃ p₀ p₁ p₂ p₃ : Nat × Nat, row = dotsOf [p₀, p₁, p₂, p₃] := by
  obtain ⟨hdo, hl⟩ := dotsOf_pairsOf (n := 4) h
  obtain ⟨p₀, as, has⟩ := List.exists_cons_of_length_eq_add_one hl
  rw [has, List.length_cons] at hl
  obtain ⟨p₁, p₂, p₃, rfl⟩ := List.length_eq_three.mp (Nat.succ.inj hl)
  exact ⟨p₀, p₁, p₂, p₃, by rw [← has, hdo]⟩

theorem wrongInRow_append {as bs as' bs' : List Nat} (h : as.length = as'.length) :
    wrongInRow (as ++ bs) (as' ++ bs') = wrongInRow as as' + wrongInRow bs bs' := by
  rw [wrongInRow, List.zip_append h, List.countP_append]
  rfl

theorem wrongInRow_pair (p : Nat × Nat) (color : Nat) (rest shown : List Nat) :
    wrongInRow (p.1 :: p.2 :: rest) (color :: color :: shown) = pairCost p color + wrongInRow rest shown := by
  simp only [wrongInRow, List.zip_cons_cons, List.countP_cons, pairCost]
  by_cases h₁ : p.1 = color <;> by_cases h₂ : p.2 = color <;> simp [h₁, h₂] <;> omega

theorem renderByte_eq (s : SharedColors) (lc : Nat) (byte : UInt8) :
    renderByte s lc byte =
      [s.color lc (Koala.code byte 0), s.color lc (Koala.code byte 0), s.color lc (Koala.code byte 1),
       s.color lc (Koala.code byte 1), s.color lc (Koala.code byte 2), s.color lc (Koala.code byte 2),
       s.color lc (Koala.code byte 3), s.color lc (Koala.code byte 3)] := rfl

theorem length_renderByte (s : SharedColors) (lc : Nat) (byte : UInt8) : (renderByte s lc byte).length = 8 := rfl

theorem wrongInRow_renderByte (s : SharedColors) (lc : Nat) (byte : UInt8) (p₀ p₁ p₂ p₃ : Nat × Nat) :
    wrongInRow (dotsOf [p₀, p₁, p₂, p₃]) (renderByte s lc byte) =
      pairCost p₀ (s.color lc (Koala.code byte 0)) + (pairCost p₁ (s.color lc (Koala.code byte 1)) +
        (pairCost p₂ (s.color lc (Koala.code byte 2)) + pairCost p₃ (s.color lc (Koala.code byte 3)))) := by
  simp only [dotsOf, List.flatMap_cons, List.flatMap_nil, List.cons_append, List.nil_append]
  rw [renderByte_eq, wrongInRow_pair, wrongInRow_pair, wrongInRow_pair, wrongInRow_pair]
  rfl

theorem pairsError_four (s : SharedColors) (lc : Nat) (p₀ p₁ p₂ p₃ : Nat × Nat) :
    pairsError s [p₀, p₁, p₂, p₃] lc =
      pairError s lc p₀ + (pairError s lc p₁ + (pairError s lc p₂ + pairError s lc p₃)) := by
  rw [pairsError_cons, pairsError_cons, pairsError_cons, pairsError_cons]
  rfl

/-- Whatever byte a row is drawn from, it shows no fewer dots wrong than the error tells. -/
theorem pairsError_le_wrongInRow (h : row.length = 8) (s : SharedColors) (lc : Nat) (byte : UInt8) :
    pairsError s (pairsOf row) lc ≤ wrongInRow row (renderByte s lc byte) := by
  obtain ⟨p₀, p₁, p₂, p₃, rfl⟩ := exists_pairs h
  rw [wrongInRow_renderByte, pairsOf_dotsOf, pairsError_four]
  have h₀ := pairError_le_pairCost s lc p₀ (Koala.code byte 0)
  have h₁ := pairError_le_pairCost s lc p₁ (Koala.code byte 1)
  have h₂ := pairError_le_pairCost s lc p₂ (Koala.code byte 2)
  have h₃ := pairError_le_pairCost s lc p₃ (Koala.code byte 3)
  omega

theorem toNat_shiftCode (byte : UInt8) {code : Nat} (hb : byte.toNat < 64) (hc : code < 4) :
    (byte * 4 + UInt8.ofNat code).toNat = byte.toNat * 4 + code := by
  have hf : (4 : UInt8).toNat = 4 := rfl
  rw [UInt8.toNat_add, UInt8.toNat_mul, UInt8.toNat_ofNat', hf]
  omega

theorem code_rowByte (s : SharedColors) (lc : Nat) (p₀ p₁ p₂ p₃ : Nat × Nat) :
    let byte := rowByte s lc (dotsOf [p₀, p₁, p₂, p₃])
    Koala.code byte 0 = pairCode s lc p₀ ∧ Koala.code byte 1 = pairCode s lc p₁ ∧
      Koala.code byte 2 = pairCode s lc p₂ ∧ Koala.code byte 3 = pairCode s lc p₃ := by
  intro byte
  have h₀ := pairCode_lt s lc p₀
  have h₁ := pairCode_lt s lc p₁
  have h₂ := pairCode_lt s lc p₂
  have h₃ := pairCode_lt s lc p₃
  have hb : byte.toNat =
      ((pairCode s lc p₀ * 4 + pairCode s lc p₁) * 4 + pairCode s lc p₂) * 4 + pairCode s lc p₃ := by
    have hf : (0 * 4 + UInt8.ofNat (pairCode s lc p₀)).toNat = 0 * 4 + pairCode s lc p₀ :=
      toNat_shiftCode 0 (by decide) h₀
    simp only [byte, rowByte, pairsOf_dotsOf, List.foldl_cons, List.foldl_nil]
    generalize 0 * 4 + UInt8.ofNat (pairCode s lc p₀) = byte₀ at hf ⊢
    have hs := toNat_shiftCode byte₀ (by omega) h₁
    generalize byte₀ * 4 + UInt8.ofNat (pairCode s lc p₁) = byte₁ at hs ⊢
    have ht := toNat_shiftCode byte₁ (by omega) h₂
    generalize byte₁ * 4 + UInt8.ofNat (pairCode s lc p₂) = byte₂ at ht ⊢
    have hfo := toNat_shiftCode byte₂ (by omega) h₃
    omega
  simp only [Koala.code, hb, Nat.shiftRight_eq_div_pow]
  omega

/-- A row that is drawn from its own byte shows as many dots wrong as the error tells. -/
theorem wrongInRow_rowByte (h : row.length = 8) (s : SharedColors) (lc : Nat) :
    wrongInRow row (renderByte s lc (rowByte s lc row)) = pairsError s (pairsOf row) lc := by
  obtain ⟨p₀, p₁, p₂, p₃, rfl⟩ := exists_pairs h
  obtain ⟨h₀, h₁, h₂, h₃⟩ := code_rowByte s lc p₀ p₁ p₂ p₃
  rw [wrongInRow_renderByte, h₀, h₁, h₂, h₃, (pairCode_spec s lc p₀).1, (pairCode_spec s lc p₁).1,
    (pairCode_spec s lc p₂).1, (pairCode_spec s lc p₃).1]
  rw [pairsOf_dotsOf, pairsError_four]

/-! ### Blocks -/

theorem wrongDots_cons {row shown : List Nat} (h : row.length = shown.length) (rows more : CharCell) :
    CharCell.wrongDots (row :: rows) (shown :: more) = wrongInRow row shown + CharCell.wrongDots rows more := by
  rw [CharCell.wrongDots, List.flatten_cons, List.flatten_cons, wrongInRow_append h]
  rfl

theorem pairsError_le_wrongDots (h : ∀ row ∈ cell, row.length = 8) (s : SharedColors) (lc : Nat) {bytes : Bytes}
    (hlen : bytes.length = cell.length) :
    pairsError s (cell.flatMap pairsOf) lc ≤ cell.wrongDots (render s lc bytes) := by
  induction cell generalizing bytes with
  | nil => exact Nat.zero_le _
  | cons row cell ih =>
    cases bytes with
    | nil => simp at hlen
    | cons byte bytes =>
      rw [List.forall_mem_cons] at h
      rw [List.flatMap_cons, pairsError_append, render, List.map_cons, wrongDots_cons (h.1.trans rfl)]
      have hrow := pairsError_le_wrongInRow h.1 s lc byte
      have hr := ih h.2 (Nat.succ.inj hlen)
      exact Nat.add_le_add hrow hr

theorem wrongDots_render (h : ∀ row ∈ cell, row.length = 8) (s : SharedColors) (lc : Nat) :
    cell.wrongDots (render s lc (cell.map (rowByte s lc))) = pairsError s (cell.flatMap pairsOf) lc := by
  induction cell with
  | nil => rfl
  | cons row cell ih =>
    rw [List.forall_mem_cons] at h
    rw [List.flatMap_cons, pairsError_append, ← wrongInRow_rowByte h.1, ← ih h.2]
    exact wrongDots_cons (h.1.trans rfl) _ _

/-- The chosen local colour is one of the sixteen with the least error, and no colour before it is. -/
theorem bestLocal_spec (s : SharedColors) (pairs : List (Nat × Nat)) :
    (bestLocal s pairs).1 < 16 ∧ (bestLocal s pairs).2 = pairsError s pairs (bestLocal s pairs).1 ∧
      (∀ lc < 16, (bestLocal s pairs).2 ≤ pairsError s pairs lc) ∧
      ∀ lc < (bestLocal s pairs).1, (bestLocal s pairs).2 < pairsError s pairs lc := by
  obtain ⟨lc, hf, hls⟩ := leastFrom_head (pairsError s pairs) 0 ((List.range 16).drop 1)
  have hli : 0 :: (List.range 16).drop 1 = List.range 16 := rfl
  have hb : bestLocal s pairs = (lc, pairsError s pairs lc) := hf
  rw [hli] at hls
  rw [hb]
  refine ⟨List.mem_range.mp hls.mem, rfl, fun l hl => hls.le (List.mem_range.mpr hl), fun l hl => ?_⟩
  -- The colours that are searched before `lc` are those below it.
  obtain ⟨before, after, hs, hbe, _⟩ := hls
  have hlen := congrArg (fun l : List Nat => l[before.length]?) hs
  have hlt := List.mem_range.mp (hs ▸ (by simp : lc ∈ before ++ lc :: after))
  have hln : before.length = lc := by
    have hle : before.length < 16 := by
      have := congrArg List.length hs
      simp at this
      omega
    simpa [List.getElem?_range hle] using hlen
  have hl' : l < before.length := by omega
  refine hbe l (List.mem_iff_getElem?.mpr ⟨l, ?_⟩)
  have hget : (before ++ lc :: after)[l]? = before[l]? := List.getElem?_append_left hl'
  rw [← hget, ← hs]
  exact List.getElem?_range (by omega)

/-! ### Drawing a character -/

theorem length_render (s : SharedColors) (lc : Nat) (bytes : Bytes) : (render s lc bytes).length = bytes.length :=
  List.length_map _

theorem lt_of_mem_renderByte (hs : s.WellFormed) (hlc : lc < 256) {byte : UInt8} {dot : Nat}
    (h : dot ∈ renderByte s lc byte) : dot < 256 := by
  obtain ⟨i, _, hdot⟩ := List.mem_flatMap.mp h
  have hc : dot = s.color lc (Koala.code byte i) := by simpa using hdot
  exact hc ▸ hs.color_lt hlc _

theorem render_wellFormed (hs : s.WellFormed) (hlc : lc < 256) {bytes : Bytes} (hlen : bytes.length = 8) :
    CharCell.WellFormed (render s lc bytes) := by
  refine ⟨(length_render s lc bytes).trans hlen, fun row hrow => ?_, fun row hrow dot hdot => ?_⟩
  · obtain ⟨byte, _, rfl⟩ := List.mem_map.mp hrow
    exact length_renderByte s lc byte
  · obtain ⟨byte, _, rfl⟩ := List.mem_map.mp hrow
    exact lt_of_mem_renderByte hs hlc hdot

theorem mapM_of_forall_ok {ε α β : Type} {f : α → Except ε β} {g : α → β} {l : List α}
    (h : ∀ a ∈ l, f a = .ok (g a)) : l.mapM f = .ok (l.map g) := by
  induction l with
  | nil => rfl
  | cons a l ih =>
    rw [List.forall_mem_cons] at h
    rw [List.mapM_cons, h.1, ih h.2]
    rfl

theorem renderChecked_eq (hs : s.WellFormed) (hlc : lc < 256) {bytes : Bytes} (hlen : bytes.length = 8) :
    renderChecked s lc bytes = .ok (render s lc bytes) := by
  have hb : ¬255 < s.background := by
    have := hs.background
    omega
  rw [renderChecked, if_neg hb]
  have hrow : ∀ y (hy : y < bytes.length), ¬(renderByte s lc bytes[y]).any (255 < ·) = true := by
    intro y hy hl
    obtain ⟨dot, hdot, hl⟩ := List.any_eq_true.mp hl
    have hlt := lt_of_mem_renderByte hs hlc hdot
    have hgt := of_decide_eq_true hl
    omega
  refine (mapM_of_forall_ok (g := fun y => renderByte s lc (bytes.getD y 0)) fun y hy => ?_).trans
    (congrArg Except.ok ?_)
  · have hy : y < bytes.length := hlen ▸ List.mem_range.mp hy
    rw [List.getD_eq_getElem?_getD, List.getElem?_eq_getElem hy, Option.getD_some]
    dsimp only
    rw [if_neg (hrow y hy)]
  · refine List.ext_getElem (by simp [render, hlen]) fun y hy hy' => ?_
    have hy : y < bytes.length := by simpa [hlen] using hy
    simp [render, hy]

/-- The best encoding of a block: the character shows as many dots wrong as the error tells, and every character
with every local colour shows at least as many wrong. -/
theorem encode_optimal (hcell : cell.WellFormed) (hs : s.WellFormed) :
    (encode s cell).bytes.length = 8 ∧ (encode s cell).lc < 16 ∧
      (∃ shown, renderChecked s (encode s cell).lc (encode s cell).bytes = .ok shown ∧ shown.WellFormed ∧
        (encode s cell).error = cell.wrongDots shown) ∧
      ∀ lc < 16, ∀ bytes : Bytes, bytes.length = 8 →
        ∃ shown, renderChecked s lc bytes = .ok shown ∧ shown.WellFormed ∧
          (encode s cell).error ≤ cell.wrongDots shown := by
  obtain ⟨hlc, herror, hleast, _⟩ := bestLocal_spec s (cell.flatMap pairsOf)
  have hbytes : (encode s cell).bytes.length = 8 := (List.length_map _).trans hcell.height
  have hlc' : (encode s cell).lc < 256 := Nat.lt_trans hlc (by decide)
  refine ⟨hbytes, hlc, ⟨_, renderChecked_eq hs hlc' hbytes, render_wellFormed hs hlc' hbytes, ?_⟩, ?_⟩
  · exact herror.trans (wrongDots_render hcell.width s (encode s cell).lc).symm
  · intro lc hlc bytes hlen
    have hlc' : lc < 256 := Nat.lt_trans hlc (by decide)
    refine ⟨_, renderChecked_eq hs hlc' hlen, render_wellFormed hs hlc' hlen, ?_⟩
    calc (encode s cell).error ≤ pairsError s (cell.flatMap pairsOf) lc := hleast lc hlc
      _ ≤ cell.wrongDots (render s lc bytes) :=
        pairsError_le_wrongDots hcell.width s lc (hlen.trans hcell.height.symm)

/-- Rows of pairs that are unequal, and of colours that are shared, local or in no palette. -/
def patchwork : CharCell :=
  [[6, 6, 2, 0, 7, 7, 200, 2], [0, 0, 0, 6, 6, 0, 2, 2], [2, 6, 6, 6, 7, 2, 0, 0], [9, 9, 9, 6, 6, 9, 0, 9],
   [0, 2, 2, 2, 6, 6, 6, 6], [6, 6, 6, 2, 2, 6, 255, 255], [0, 0, 0, 0, 0, 0, 0, 0], [2, 2, 6, 6, 0, 0, 7, 9]]

theorem patchwork_wellFormed : patchwork.WellFormed :=
  ⟨rfl, by decide, by decide⟩

def coinciding : SharedColors := ⟨0, 2, 2⟩

theorem coinciding_wellFormed : coinciding.WellFormed :=
  ⟨by decide, by decide, by decide⟩

theorem encode_optimal_patchwork :
    patchwork.WellFormed ∧ coinciding.WellFormed ∧ (encode coinciding patchwork).error = 20 ∧
      ∀ lc < 16, ∀ bytes : Bytes, bytes.length = 8 →
        ∃ shown, renderChecked coinciding lc bytes = .ok shown ∧ 20 ≤ patchwork.wrongDots shown := by
  have herror : (encode coinciding patchwork).error = 20 := by decide
  refine ⟨patchwork_wellFormed, coinciding_wellFormed, herror, fun lc hlc bytes hlen => ?_⟩
  obtain ⟨_, _, _, hleast⟩ := encode_optimal patchwork_wellFormed coinciding_wellFormed
  obtain ⟨shown, hshown, _, hle⟩ := hleast lc hlc bytes hlen
  exact ⟨shown, hshown, herror ▸ hle⟩

/-! ### Encoding what a character shows -/

def shownPair (s : SharedColors) (lc : Nat) (p : Nat × Nat) : Nat × Nat :=
  (s.color lc (pairCode s lc p), s.color lc (pairCode s lc p))

theorem pairCost_same (c color : Nat) : pairCost (c, c) color = if c = color then 0 else 2 := by
  unfold pairCost
  split <;> rfl

theorem pairError_shownPair (s : SharedColors) (lc : Nat) (p : Nat × Nat) : pairError s lc (shownPair s lc p) = 0 := by
  have hle := pairError_le_pairCost s lc (shownPair s lc p) (pairCode s lc p)
  rw [shownPair, pairCost_same, if_pos rfl] at hle
  exact Nat.le_zero.mp hle

theorem pairCode_shownPair (s : SharedColors) (lc : Nat) (p : Nat × Nat) :
    pairCode s lc (shownPair s lc p) = pairCode s lc p := by
  obtain ⟨hc, hf⟩ := pairCode_spec s lc (shownPair s lc p)
  rw [pairError_shownPair] at hc hf
  have hco : s.color lc (pairCode s lc p) = s.color lc (pairCode s lc (shownPair s lc p)) := by
    have hc : pairCost (s.color lc (pairCode s lc p), s.color lc (pairCode s lc p))
        (s.color lc (pairCode s lc (shownPair s lc p))) = 0 := hc
    rw [pairCost_same] at hc
    by_contra hne
    rw [if_neg hne] at hc
    cases hc
  rcases Nat.lt_trichotomy (pairCode s lc (shownPair s lc p)) (pairCode s lc p) with hlt | heq | hgt
  · have hb := (pairCode_spec s lc p).2 _ hlt
    rw [← hco, (pairCode_spec s lc p).1] at hb
    exact absurd hb (Nat.lt_irrefl _)
  · exact heq
  · have hw := hf _ hgt
    rw [shownPair, pairCost_same, if_pos rfl] at hw
    exact absurd hw (Nat.lt_irrefl _)

theorem renderByte_rowByte (s : SharedColors) (lc : Nat) (p₀ p₁ p₂ p₃ : Nat × Nat) :
    renderByte s lc (rowByte s lc (dotsOf [p₀, p₁, p₂, p₃])) =
      dotsOf [shownPair s lc p₀, shownPair s lc p₁, shownPair s lc p₂, shownPair s lc p₃] := by
  obtain ⟨h₀, h₁, h₂, h₃⟩ := code_rowByte s lc p₀ p₁ p₂ p₃
  rw [renderByte_eq, h₀, h₁, h₂, h₃]
  rfl

theorem rowByte_renderByte (h : row.length = 8) (s : SharedColors) (lc : Nat) :
    rowByte s lc (renderByte s lc (rowByte s lc row)) = rowByte s lc row := by
  obtain ⟨p₀, p₁, p₂, p₃, rfl⟩ := exists_pairs h
  rw [renderByte_rowByte]
  simp only [rowByte, pairsOf_dotsOf, List.foldl_cons, List.foldl_nil, pairCode_shownPair]

theorem pairsOf_renderByte (h : row.length = 8) (s : SharedColors) (lc : Nat) :
    pairsOf (renderByte s lc (rowByte s lc row)) = (pairsOf row).map (shownPair s lc) := by
  obtain ⟨p₀, p₁, p₂, p₃, rfl⟩ := exists_pairs h
  rw [renderByte_rowByte, pairsOf_dotsOf, pairsOf_dotsOf]
  rfl

theorem flatMap_pairsOf_render (h : ∀ row ∈ cell, row.length = 8) (s : SharedColors) (lc : Nat) :
    (render s lc (cell.map (rowByte s lc))).flatMap pairsOf = (cell.flatMap pairsOf).map (shownPair s lc) := by
  induction cell with
  | nil => rfl
  | cons row cell ih =>
    rw [List.forall_mem_cons] at h
    rw [List.flatMap_cons, List.map_append, ← pairsOf_renderByte h.1, ← ih h.2]
    rfl

theorem map_rowByte_render (h : ∀ row ∈ cell, row.length = 8) (s : SharedColors) (lc : Nat) :
    (render s lc (cell.map (rowByte s lc))).map (rowByte s lc) = cell.map (rowByte s lc) := by
  rw [render, List.map_map, List.map_map]
  refine List.map_congr_left fun row hrow => ?_
  rw [Function.comp_apply, Function.comp_apply, rowByte_renderByte (h row hrow)]

theorem pairsError_shown (s : SharedColors) (lc : Nat) (pairs : List (Nat × Nat)) :
    pairsError s (pairs.map (shownPair s lc)) lc = 0 := by
  induction pairs with
  | nil => rfl
  | cons p pairs ih => rw [List.map_cons, pairsError_cons, pairError_shownPair, ih]

/-- What is shown with one local colour has an error with every colour that fits the dots less well: a pair that
the other colour makes worse is shown in a colour that the other palette does not have. -/
theorem pairsError_shown_pos {other : Nat} {pairs : List (Nat × Nat)}
    (h : pairsError s pairs lc < pairsError s pairs other) :
    0 < pairsError s (pairs.map (shownPair s lc)) other := by
  induction pairs with
  | nil => exact absurd h (Nat.lt_irrefl _)
  | cons p pairs ih =>
    rw [pairsError_cons, pairsError_cons] at h
    rw [List.map_cons, pairsError_cons]
    by_cases hp : pairError s lc p < pairError s other p
    · have hc : ∀ code, s.color lc (pairCode s lc p) ≠ s.color other code := by
        intro code heq
        have hle := pairError_le_pairCost s other p code
        rw [← heq, (pairCode_spec s lc p).1] at hle
        omega
      have hco := (pairCode_spec s other (shownPair s lc p)).1
      rw [shownPair, pairCost_same, if_neg (hc _)] at hco
      rw [shownPair]
      omega
    · have hr := ih (by omega)
      omega

/-- Encoding what the best character shows gives this character again, and no error. -/
theorem encode_shown (hcell : cell.WellFormed) (hs : s.WellFormed) :
    ∃ shown, renderChecked s (encode s cell).lc (encode s cell).bytes = .ok shown ∧
      encode s shown = ⟨(encode s cell).bytes, (encode s cell).lc, 0⟩ := by
  obtain ⟨hlc, herror, _, hfirst⟩ := bestLocal_spec s (cell.flatMap pairsOf)
  have hbytes : (encode s cell).bytes.length = 8 := (List.length_map _).trans hcell.height
  refine ⟨_, renderChecked_eq hs (Nat.lt_trans hlc (by decide)) hbytes, ?_⟩
  obtain ⟨lc, hbest⟩ : ∃ lc, (bestLocal s (cell.flatMap pairsOf)).1 = lc := ⟨_, rfl⟩
  rw [hbest] at hlc herror hfirst
  have hbytes_eq : (encode s cell).bytes = cell.map (rowByte s lc) := by rw [encode, ← hbest]
  have hlc_eq : (encode s cell).lc = lc := hbest
  have hpairs := flatMap_pairsOf_render hcell.width s lc
  have hzero := pairsError_shown s lc (cell.flatMap pairsOf)
  have hpos : ∀ other < lc, 0 < pairsError s ((cell.flatMap pairsOf).map (shownPair s lc)) other :=
    fun other hother => pairsError_shown_pos (herror ▸ hfirst other hother)
  -- The local colour is the first without an error, so the search ends with it.
  have hsearch : bestLocal s ((cell.flatMap pairsOf).map (shownPair s lc)) = (lc, 0) := by
    obtain ⟨_, herror', hleast', hfirst'⟩ := bestLocal_spec s ((cell.flatMap pairsOf).map (shownPair s lc))
    have hnone := hleast' lc hlc
    rw [hzero] at hnone
    have hchosen : (bestLocal s ((cell.flatMap pairsOf).map (shownPair s lc))).1 = lc := by
      rcases Nat.lt_trichotomy (bestLocal s ((cell.flatMap pairsOf).map (shownPair s lc))).1 lc with hlt | heq | hgt
      · have hpos' := hpos _ hlt
        omega
      · exact heq
      · have hworse := hfirst' lc hgt
        omega
    exact Prod.ext hchosen (Nat.le_zero.mp hnone)
  have hshown : encode s (render s lc (cell.map (rowByte s lc))) = ⟨cell.map (rowByte s lc), lc, 0⟩ := by
    rw [encode, hpairs, hsearch]
    dsimp only
    rw [map_rowByte_render hcell.width]
  rw [← hbytes_eq, ← hlc_eq] at hshown
  exact hshown

theorem encode_shown_patchwork :
    patchwork.WellFormed ∧ coinciding.WellFormed ∧ (encode coinciding patchwork).lc = 6 ∧
      ∃ shown, renderChecked coinciding 6 (encode coinciding patchwork).bytes = .ok shown ∧
        encode coinciding shown = ⟨(encode coinciding patchwork).bytes, 6, 0⟩ := by
  have hlc : (encode coinciding patchwork).lc = 6 := by decide
  obtain ⟨shown, hshown, hagain⟩ := encode_shown patchwork_wellFormed coinciding_wellFormed
  rw [hlc] at hshown hagain
  exact ⟨patchwork_wellFormed, coinciding_wellFormed, hlc, shown, hshown, hagain⟩

end Multicolor

end EscapeRoom
