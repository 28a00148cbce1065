import EscapeRoom.Proofs.Picture.Koala

/-!
# Pictures that keep to the palette

Sixteen colours have names and parts of red, green and blue. Three of the four colours of a dot of a Koala file are
half bytes, and so among the sixteen; the background is a whole byte. The picture keeps to the sixteen colours exactly
if this byte is one of them or no dot shows it, and then the commonest colour has a name and every picture that is
composed of the same colours has its parts of red, green and blue.
-/

namespace EscapeRoom

namespace Color

theorem name?_isSome (c : Nat) : (name? c).isSome ↔ c < 16 := by
  rw [name?, Option.isSome_map, Option.isSome_iff_ne_none, ne_eq, List.getElem?_eq_none_iff, Nat.not_le]
  exact Iff.rfl

/-! ### Counting colours -/

theorem le_foldl_max (l : List Nat) (n : Nat) : n ≤ l.foldl max n ∧ ∀ c ∈ l, c ≤ l.foldl max n := by
  induction l generalizing n with
  | nil => simp
  | cons a l ih =>
    obtain ⟨hs, hl⟩ := ih (max n a)
    rw [List.foldl_cons, List.forall_mem_cons]
    exact ⟨Nat.le_trans (Nat.le_max_left n a) hs, Nat.le_trans (Nat.le_max_right n a) hs, hl⟩

theorem getD_foldl_modify (l : List Nat) (counts : Array Nat) (h : ∀ c ∈ l, c < counts.size) (c : Nat) :
    (l.foldl (fun counts c => counts.modify c (· + 1)) counts).getD c 0 = counts.getD c 0 + l.count c := by
  induction l generalizing counts with
  | nil => rfl
  | cons a l ih =>
    rw [List.forall_mem_cons] at h
    have hc : (counts.modify a (· + 1)).getD c 0 = counts.getD c 0 + if a = c then 1 else 0 := by
      simp only [Array.getD_eq_getD_getElem?, Array.getElem?_modify]
      split
      · next hac => simp [← hac, h.1]
      · rfl
    rw [List.foldl_cons, ih _ (by simpa using h.2), hc, List.count_cons]
    simp only [beq_iff_eq]
    omega

theorem size_foldl_modify (l : List Nat) (counts : Array Nat) :
    (l.foldl (fun counts c => counts.modify c (· + 1)) counts).size = counts.size := by
  induction l generalizing counts with
  | nil => rfl
  | cons a l ih => rw [List.foldl_cons, ih, Array.size_modify]

theorem size_counts (pixels : List Nat) : (counts pixels).size = max 16 (pixels.foldl max 0 + 1) := by
  rw [counts, size_foldl_modify, Array.size_replicate]

theorem lt_size_counts {pixels : List Nat} {c : Nat} (h : c ∈ pixels) : c < (counts pixels).size := by
  have hle := (le_foldl_max pixels 0).2 c h
  rw [size_counts]
  omega

theorem getD_counts (pixels : List Nat) (c : Nat) : (counts pixels).getD c 0 = pixels.count c := by
  have hlt : ∀ c ∈ pixels, c < (Array.replicate (max 16 (pixels.foldl max 0 + 1)) 0).size := by
    intro c hc
    rw [Array.size_replicate, ← size_counts]
    exact lt_size_counts hc
  rw [counts, getD_foldl_modify _ _ hlt]
  rw [Array.getD_eq_getD_getElem?, Array.getElem?_replicate]
  split <;> exact Nat.zero_add _

/-! ### Ranks -/

theorem mem_ranked {counts : Array Nat} {c : Nat} : c ∈ ranked counts ↔ c < counts.size := by
  rw [ranked, List.mem_reverse, List.mem_mergeSort, List.mem_range]

theorem length_ranked (counts : Array Nat) : (ranked counts).length = counts.size := by
  rw [ranked, List.length_reverse, List.length_mergeSort, List.length_range]

theorem pairwise_ranked (counts : Array Nat) : (ranked counts).Pairwise fun a b => counts.getD b 0 ≤ counts.getD a 0 := by
  have ht : ∀ a b c, decide (counts.getD a 0 ≤ counts.getD b 0) = true →
      decide (counts.getD b 0 ≤ counts.getD c 0) = true → decide (counts.getD a 0 ≤ counts.getD c 0) = true :=
    fun a b c hab hbc => decide_eq_true (Nat.le_trans (of_decide_eq_true hab) (of_decide_eq_true hbc))
  have hto : ∀ a b, (decide (counts.getD a 0 ≤ counts.getD b 0) || decide (counts.getD b 0 ≤ counts.getD a 0)) = true := by
    intro a b
    simpa using Nat.le_total (counts.getD a 0) (counts.getD b 0)
  have hs := List.pairwise_mergeSort ht hto (List.range counts.size)
  exact List.pairwise_reverse.mpr (hs.imp fun h => of_decide_eq_true h)

end Color

/-- The colour chosen as the commonest is a colour of the picture, and no other colour has more pixels. -/
theorem Multicolor.commonest_spec {pixels : List Nat} (h : pixels ≠ []) :
    (commonest pixels).1 ∈ pixels ∧ ∀ c, pixels.count c ≤ pixels.count (commonest pixels).1 := by
  have hl := Color.length_ranked (Color.counts pixels)
  have hs := Color.size_counts pixels
  rcases hr : Color.ranked (Color.counts pixels) with _ | ⟨a, _ | ⟨b, _ | ⟨c, rest⟩⟩⟩
  iterate 3
    rw [hr] at hl
    simp only [List.length_cons, List.length_nil] at hl
    omega
  have hc : (commonest pixels).1 = a := by rw [commonest, hr]
  have hm : ∀ x, pixels.count x ≤ pixels.count a := by
    intro x
    by_cases hx : x ∈ pixels
    · have hmem := Color.mem_ranked.mpr (Color.lt_size_counts hx)
      have hp := Color.pairwise_ranked (Color.counts pixels)
      rw [hr] at hmem hp
      rcases List.mem_cons.mp hmem with rfl | hmem
      · exact Nat.le_refl _
      · simpa only [Color.getD_counts] using (List.pairwise_cons.mp hp).1 x hmem
    · rw [List.count_eq_zero_of_not_mem hx]
      exact Nat.zero_le _
  rw [hc]
  refine ⟨?_, hm⟩
  obtain ⟨x, hx⟩ := List.exists_mem_of_ne_nil pixels h
  have hpos := List.count_pos_iff.mpr hx
  exact List.count_pos_iff.mp (Nat.lt_of_lt_of_le hpos (hm x))

/-! ### Parts of red, green and blue -/

/-- A picture has its parts of red, green and blue exactly if all its pixels are among the sixteen colours. -/
theorem Raster.rgb?_isSome (r : Raster) : r.rgb?.isSome ↔ ∀ c ∈ r.pixels, c < 16 := by
  have hs : ∀ (l : List Nat) (parts : Array Bytes) (bytes : Bytes), parts.size = 16 →
      ((l.foldlM (fun bytes c => (parts[c]?).map (· ++ bytes)) bytes).isSome ↔ ∀ c ∈ l, c < 16) := by
    intro l parts bytes hsi
    induction l generalizing bytes with
    | nil => simp
    | cons c l ih =>
      rw [List.foldlM_cons, List.forall_mem_cons]
      by_cases hc : c < parts.size
      · simp [hc, ih, hsi ▸ hc]
      · have hn : parts[c]? = none := Array.getElem?_eq_none (Nat.le_of_not_lt hc)
        simp only [hn, Option.map_none]
        exact ⟨fun h => absurd h (by simp), fun h => absurd h.1 (hsi ▸ hc)⟩
  rw [rgb?, hs _ _ _ (by rw [Array.size_map]; rfl)]
  simp

namespace Koala

variable {data file : Bytes} {tree : FileTree} {path : String}

/-- The background is one of the sixteen colours, or no pixel shows it. -/
def KeepsPalette (data : Bytes) : Prop :=
  (background data).toNat < 16 ∨ ∀ byte ∈ data.take 8000, ∀ i < 4, code byte i ≠ 0

theorem getD_of_lt {i : Nat} (h : i < data.length) : data.getD i 0 = data[i] := by
  rw [List.getD_eq_getElem?_getD, List.getElem?_eq_getElem h, Option.getD_some]

theorem color_lt (data : Bytes) (char : Nat) {n : Nat} (h : n ≠ 0) :
    (sharedAt data char).color (localAt data char) n < 16 := by
  have hs := (data.getD (8000 + char) 0).toNat_lt
  unfold SharedColors.color
  split
  · exact absurd rfl h
  · dsimp only [sharedAt]
    omega
  · exact Nat.mod_lt _ (by decide)
  · exact localAt_lt data char

/-- The dots of the picture are those of the bitmap bytes: every pixel of a byte is shown somewhere. -/
theorem mem_pixels_iff {c : Nat} :
    c ∈ (ofData data).raster.pixels ↔
      ∃ char < 1000, ∃ y < 8, ∃ i < 4,
        (sharedAt data char).color (localAt data char) (code (data.getD (char * 8 + y) 0) i) = c := by
  rw [Picture.raster, Raster.mem_pixels_ofFn]
  constructor
  · rintro ⟨x, hx, y, hy, rfl⟩
    exact ⟨y / 8 * 40 + x / 8, by omega, y % 8, by omega, x % 8 / 2, by omega, (dot_ofData data hx hy).symm⟩
  · rintro ⟨char, hc, y, hy, i, hi, rfl⟩
    refine ⟨char % 40 * 8 + 2 * i, by omega, char / 40 * 8 + y, by omega, ?_⟩
    have hc' : (char / 40 * 8 + y) / 8 * 40 + (char % 40 * 8 + 2 * i) / 8 = char := by omega
    have hy' : (char / 40 * 8 + y) % 8 = y := by omega
    have hi' : (char % 40 * 8 + 2 * i) % 8 / 2 = i := by omega
    rw [dot_ofData data (by omega) (by omega), hc', hy', hi']

theorem lt_or_eq_of_mem_pixels {c : Nat} (h : c ∈ (ofData data).raster.pixels) :
    c < 16 ∨ c = (background data).toNat := by
  obtain ⟨char, _, y, _, i, _, rfl⟩ := mem_pixels_iff.mp h
  by_cases hc : code (data.getD (char * 8 + y) 0) i = 0
  · exact .inr (by rw [hc]; rfl)
  · exact .inl (color_lt data char hc)

/-- All dots are among the sixteen colours exactly if the background is or no dot shows it. -/
theorem pixels_lt_iff (hlen : data.length = 10001) : (∀ c ∈ (ofData data).raster.pixels, c < 16) ↔ KeepsPalette data := by
  constructor
  · intro h
    by_contra hke
    rw [KeepsPalette, not_or] at hke
    refine hke.2 fun byte hb i hi hco => hke.1 (h _ (mem_pixels_iff.mpr ?_))
    obtain ⟨k, hk, rfl⟩ := List.mem_take_iff_getElem.mp hb
    have hin : k / 8 * 8 + k % 8 = k := by omega
    refine ⟨k / 8, by omega, k % 8, by omega, i, hi, ?_⟩
    rw [hin, getD_of_lt (by omega), hco]
    rfl
  · rintro (hba | hcd) c hc
    · rcases lt_or_eq_of_mem_pixels hc with hc | rfl
      · exact hc
      · exact hba
    · obtain ⟨char, hch, y, hy, i, hi, rfl⟩ := mem_pixels_iff.mp hc
      have hin : char * 8 + y < data.length := by omega
      have hmem : data[char * 8 + y] ∈ data.take 8000 := List.mem_take_iff_getElem.mpr ⟨char * 8 + y, by omega, rfl⟩
      rw [getD_of_lt hin]
      exact color_lt data char (hcd _ hmem i hi)

theorem pixels_ne_nil (data : Bytes) : (ofData data).raster.pixels.toList ≠ [] := by
  have hs : (ofData data).raster.pixels.size = 320 * 200 := Raster.size_pixels_ofFn _
  intro hnil
  rw [← Array.length_toList, hnil] at hs
  cases hs

open TileKit (loadPicture)

/-- The dots of a file are among the sixteen colours or show the background byte. All are among the sixteen exactly if
the background byte keeps to them or is not shown, and exactly then every picture composed of the same colours has its
parts of red, green and blue; the colour chosen as the background, which no other colour outnumbers, has a name then. -/
theorem loadPicture_palette (h : tree.bytes path = .ok file) (hlen : data.length = 10001) (hfile : IsFileOf file data) :
    ∃ r, loadPicture tree path = .ok r ∧
      (∀ c ∈ r.pixels, c < 16 ∨ c = (background data).toNat) ∧
      ((∀ c ∈ r.pixels, c < 16) ↔ KeepsPalette data) ∧
      ((∀ image : Raster, (∀ c ∈ image.pixels, c ∈ r.pixels) → image.rgb?.isSome) ↔ KeepsPalette data) ∧
      ((Multicolor.commonest r.pixels.toList).1 ∈ r.pixels ∧
        ∀ c, r.pixels.toList.count c ≤ r.pixels.toList.count (Multicolor.commonest r.pixels.toList).1) ∧
      (KeepsPalette data → (Color.name? (Multicolor.commonest r.pixels.toList).1).isSome) := by
  have hkeeps := pixels_lt_iff hlen
  obtain ⟨hchosen, hmost⟩ := Multicolor.commonest_spec (pixels_ne_nil data)
  rw [Array.mem_toList_iff] at hchosen
  refine ⟨_, loadPicture_of_isFileOf h hlen hfile, fun c => lt_or_eq_of_mem_pixels, hkeeps, ⟨?_, ?_⟩, ⟨hchosen, hmost⟩, ?_⟩
  · intro hparts
    exact hkeeps.mp ((Raster.rgb?_isSome _).mp (hparts _ fun c hc => hc))
  · intro hpalette image himage
    exact (Raster.rgb?_isSome image).mpr fun c hc => hkeeps.mpr hpalette c (himage c hc)
  · intro hpalette
    exact (Color.name?_isSome _).mpr (hkeeps.mpr hpalette _ hchosen)

theorem keepsPalette_hidden : KeepsPalette (uniform 0x55 0x21 200) := by
  have hc : ∀ i < 4, code 0x55 i ≠ 0 := by decide
  refine .inr fun byte hb => ?_
  obtain rfl : byte = 0x55 := by
    obtain ⟨k, hk, rfl⟩ := List.mem_take_iff_getElem.mp hb
    rw [← getD_of_lt (by omega), uniform, getD_bands, if_pos (by omega)]
  exact hc

theorem loadPicture_palette_hidden :
    KeepsPalette (uniform 0x55 0x21 200) ∧
      ∃ r, loadPicture (disk (uniform 0x55 0x21 200)) "i" = .ok r ∧ (∀ c ∈ r.pixels, c < 16) ∧ r.rgb?.isSome ∧
        (Color.name? (Multicolor.commonest r.pixels.toList).1).isSome := by
  obtain ⟨r, hload, _, hkeeps, hparts, _, hname⟩ :=
    loadPicture_palette (bytes_disk (uniform 0x55 0x21 200)) (length_bands _ _ _ _ _) (.inl rfl)
  exact ⟨keepsPalette_hidden, r, hload, hkeeps.mpr keepsPalette_hidden,
    hparts.mpr keepsPalette_hidden r fun c hc => hc, hname keepsPalette_hidden⟩

theorem pixels_uniform (color last : UInt8) : ∀ c ∈ (ofData (uniform 0 color last)).raster.pixels, c = last.toNat := by
  intro c hc
  obtain ⟨char, hch, y, hy, i, _, rfl⟩ := mem_pixels_iff.mp hc
  have hb : background (uniform 0 color last) = last := by rw [background, uniform, getD_bands]; rfl
  have hco : code 0 i = 0 := by simp [code]
  rw [uniform, getD_bands, if_pos (by omega), ← uniform, hco, SharedColors.color, sharedAt, hb]

/-- An empty picture on a background without a name: all dots show it, it is chosen as the background, and neither it
nor the picture can be shown. -/
theorem loadPicture_outside_palette :
    ∃ r, loadPicture (disk (uniform 0 0 16)) "i" = .ok r ∧ (∀ c ∈ r.pixels, c = 16) ∧
      (Multicolor.commonest r.pixels.toList).1 = 16 ∧ Color.name? 16 = none ∧ r.rgb? = none := by
  have hpixels : ∀ c ∈ (ofData (uniform 0 0 16)).raster.pixels, c = 16 := pixels_uniform 0 16
  obtain ⟨hchosen, _⟩ := Multicolor.commonest_spec (pixels_ne_nil (uniform 0 0 16))
  rw [Array.mem_toList_iff] at hchosen
  refine ⟨_, loadPicture_of_isFileOf (bytes_disk _) (length_bands _ _ _ _ _) (.inl rfl), hpixels, hpixels _ hchosen,
    rfl, ?_⟩
  rw [← Option.not_isSome_iff_eq_none, Raster.rgb?_isSome]
  intro hlt
  have hlt := hlt _ hchosen
  rw [hpixels _ hchosen] at hlt
  exact absurd hlt (by decide)

end Koala

end EscapeRoom
