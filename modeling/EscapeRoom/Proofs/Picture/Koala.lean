import EscapeRoom.Proofs.Picture.Multicolor
import EscapeRoom.TileKit.Load

/-!
# What a Koala file shows

A Koala file lists the bytes of its characters one after the other. Every block of eight by eight dots of the picture
is the drawing of the character at its place, with the background and the two colours of the screen byte as shared
colours and the colour byte as the local one, so that encoding the block with these shared colours leaves no dot wrong.

Of the four colours of a dot three are half bytes, and so among the sixteen colours that have names. The background is
a whole byte: the picture keeps to the sixteen colours exactly if this byte is one of them or no dot shows it.
-/

namespace EscapeRoom

namespace Raster

variable {width height : Nat}

theorem index_lt {x y : Nat} (hx : x < width) (hy : y < height) : y * width + x < width * height := by
  have hrow : (y + 1) * width ≤ height * width := Nat.mul_le_mul_right width hy
  rw [Nat.add_mul, Nat.mul_comm height] at hrow
  omega

theorem size_pixels_ofFn (f : Nat → Nat → Nat) : (ofFn width height f).pixels.size = width * height :=
  Array.size_ofFn

theorem pixel_ofFn (f : Nat → Nat → Nat) {x y : Nat} (hx : x < width) (hy : y < height) :
    (ofFn width height f).pixel x y = f x y := by
  have hi := index_lt hx hy
  have hw : 0 < width := by omega
  have hx' : (y * width + x) % width = x := by rw [Nat.mul_comm, Nat.mul_add_mod, Nat.mod_eq_of_lt hx]
  have hy' : (y * width + x) / width = y := by
    rw [Nat.mul_comm, Nat.mul_add_div hw, Nat.div_eq_of_lt hx, Nat.add_zero]
  simp [pixel, ofFn, hi, hx', hy']

theorem mem_pixels_ofFn (f : Nat → Nat → Nat) {c : Nat} :
    c ∈ (ofFn width height f).pixels ↔ ∃ x < width, ∃ y < height, f x y = c := by
  simp only [ofFn, Array.mem_ofFn]
  constructor
  · rintro ⟨i, rfl⟩
    have hw : 0 < width := Nat.pos_of_mul_pos_right (Nat.lt_of_le_of_lt (Nat.zero_le _) i.isLt)
    exact ⟨i % width, Nat.mod_lt _ hw, i / width, Nat.div_lt_of_lt_mul i.isLt, rfl⟩
  · rintro ⟨x, hx, y, hy, rfl⟩
    have hp := pixel_ofFn f hx hy
    have hi := index_lt hx hy
    refine ⟨⟨y * width + x, hi⟩, ?_⟩
    simpa [pixel, ofFn, hi] using hp

end Raster

namespace Multicolor

theorem wrongInRow_self (row : List Nat) : wrongInRow row row = 0 := by
  induction row with
  | nil => rfl
  | cons dot row ih => simpa [wrongInRow, List.countP_cons] using ih

/-- What a character shows with one of the sixteen local colours is encoded without an error. -/
theorem encode_render_error (s : SharedColors) {lc : Nat} (hlc : lc < 16) (bytes : Bytes) :
    (encode s (render s lc bytes)).error = 0 := by
  obtain ⟨_, _, hl, _⟩ := bestLocal_spec s ((render s lc bytes).flatMap pairsOf)
  have hw : ∀ row ∈ render s lc bytes, row.length = 8 := by
    intro row hrow
    obtain ⟨byte, _, rfl⟩ := List.mem_map.mp hrow
    exact length_renderByte s lc byte
  refine Nat.le_zero.mp ?_
  calc (encode s (render s lc bytes)).error ≤ pairsError s ((render s lc bytes).flatMap pairsOf) lc := hl lc hlc
    _ ≤ (render s lc bytes).wrongDots (render s lc bytes) :=
      pairsError_le_wrongDots hw s lc (length_render s lc bytes).symm
    _ = 0 := wrongInRow_self _

theorem renderByte_eq_map (s : SharedColors) (lc : Nat) (byte : UInt8) :
    renderByte s lc byte = (List.range 8).map fun dx => s.color lc (Koala.code byte (dx / 2)) := rfl

end Multicolor

open TileKit (loadPicture)

namespace Koala

/-! ### The data of a picture -/

/-- The file holds the data alone, or after two bytes of any value. -/
def IsFileOf (file data : Bytes) : Prop :=
  file = data ∨ ∃ a b, file = a :: b :: data

def rowsAt (data : Bytes) (char : Nat) : Bytes :=
  (data.drop (char * 8)).take 8

def background (data : Bytes) : UInt8 :=
  data.getD 10000 0

/-- The background and the two colours of the screen byte of a character. -/
def sharedAt (data : Bytes) (char : Nat) : SharedColors :=
  let screen := (data.getD (8000 + char) 0).toNat
  ⟨(background data).toNat, screen / 16, screen % 16⟩

def localAt (data : Bytes) (char : Nat) : Nat :=
  (data.getD (9000 + char) 0).toNat % 16

variable {data file : Bytes}

theorem sharedAt_wellFormed (data : Bytes) (char : Nat) : (sharedAt data char).WellFormed := by
  have hs := (data.getD (8000 + char) 0).toNat_lt
  refine ⟨(background data).toNat_lt, ?_, ?_⟩ <;> dsimp only [sharedAt] <;> omega

theorem localAt_lt (data : Bytes) (char : Nat) : localAt data char < 16 :=
  Nat.mod_lt _ (by decide)

theorem rowsAt_eq (hlen : data.length = 10001) {char : Nat} (hc : char < 1000) :
    rowsAt data char = (List.range 8).map fun y => data.getD (char * 8 + y) 0 := by
  have hl : (rowsAt data char).length = 8 := by
    rw [rowsAt, List.length_take, List.length_drop]
    omega
  refine List.ext_getElem (hl.trans (by simp)) fun y hy hy' => ?_
  have hy : y < 8 := hl ▸ hy
  have hi : char * 8 + y < data.length := by omega
  simp [rowsAt, hi]

theorem getD_window (data : Bytes) (start : Nat) {count i : Nat} (hi : i < count) :
    ((data.drop start).take count).toArray.getD i 0 = data.getD (start + i) 0 := by
  simp [List.getElem?_take_of_lt hi]

def ofData (data : Bytes) : Picture :=
  { bitmap := (data.take 8000).toArray
    screen := ((data.drop 8000).take 1000).toArray
    colors := ((data.drop 9000).take 1000).toArray
    background := background data }

theorem ofBytes_of_isFileOf (hlen : data.length = 10001) (hf : IsFileOf file data) :
    ofBytes file = .ok (ofData data) := by
  have hda : (if file.length = pictureSize + 2 then file.drop 2 else file) = data := by
    obtain rfl | ⟨a, b, rfl⟩ := hf
    · exact if_neg (by rw [hlen]; decide)
    · exact if_pos (by simp [hlen, pictureSize])
  rw [ofBytes, hda]
  exact if_pos hlen

theorem ofBytes_of_length_ne (hlen : file.length ≠ 10001) (hl' : file.length ≠ 10003) :
    ofBytes file = .error file.length := by
  have hda : (if file.length = pictureSize + 2 then file.drop 2 else file) = file := if_neg hl'
  rw [ofBytes, hda]
  exact if_neg hlen

/-! ### Dots and characters -/

/-- A dot shows the colour that the code of its pixel stands for in its character. -/
theorem dot_ofData (data : Bytes) {x y : Nat} (hx : x < 320) (hy : y < 200) :
    (ofData data).dot x y =
      (sharedAt data (y / 8 * 40 + x / 8)).color (localAt data (y / 8 * 40 + x / 8))
        (code (data.getD ((y / 8 * 40 + x / 8) * 8 + y % 8) 0) (x % 8 / 2)) := by
  obtain ⟨char, hc⟩ : ∃ char, y / 8 * 40 + x / 8 = char := ⟨_, rfl⟩
  have hlt : char < 1000 := by omega
  have hb : (ofData data).bitmap.getD (char * 8 + y % 8) 0 = data.getD (char * 8 + y % 8) 0 := by
    have hw := getD_window data 0 (show char * 8 + y % 8 < 8000 by omega)
    rwa [List.drop_zero, Nat.zero_add] at hw
  have hs : (ofData data).screen.getD char 0 = data.getD (8000 + char) 0 := getD_window data 8000 hlt
  have hco : (ofData data).colors.getD char 0 = data.getD (9000 + char) 0 := getD_window data 9000 hlt
  rw [Picture.dot, hc, hb, hs, hco]
  rfl

/-- The block of dots at the place of a character is what the character shows. -/
theorem cell_raster (hlen : data.length = 10001) {cx cy : Nat} (hcx : cx < 40) (hcy : cy < 25) :
    (ofData data).raster.cell (8 * cx) (8 * cy) =
      Multicolor.render (sharedAt data (cy * 40 + cx)) (localAt data (cy * 40 + cx))
        (rowsAt data (cy * 40 + cx)) := by
  rw [rowsAt_eq hlen (by omega), Multicolor.render, List.map_map, Raster.cell]
  refine List.map_congr_left fun dy hdy => ?_
  rw [Function.comp_apply, Multicolor.renderByte_eq_map]
  refine List.map_congr_left fun dx hdx => ?_
  have hdx := List.mem_range.mp hdx
  have hdy := List.mem_range.mp hdy
  have hc : (8 * cx + dx) / 8 = cx := by omega
  have hrow : (8 * cy + dy) / 8 = cy := by omega
  have hdx' : (8 * cx + dx) % 8 = dx := by omega
  have hdy' : (8 * cy + dy) % 8 = dy := by omega
  rw [Picture.raster, Raster.pixel_ofFn _ (by omega) (by omega), dot_ofData data (by omega) (by omega), hc, hrow,
    hdx', hdy']

/-! ### Files -/

variable {tree : FileTree} {path : String}

theorem loadPicture_of_isFileOf (h : tree.bytes path = .ok file) (hlen : data.length = 10001)
    (hf : IsFileOf file data) : loadPicture tree path = .ok (ofData data).raster := by
  have hp := ofBytes_of_isFileOf hlen hf
  simp only [loadPicture, h, Except.mapError, bind, Except.bind, hp]
  rfl

/-- A file of the right size is a picture of 320 by 200 dots in which every block is the drawing of its character, and
is encoded without an error; a file of another size is refused. -/
theorem loadPicture_cells (h : tree.bytes path = .ok file) :
    (∀ data : Bytes, data.length = 10001 → IsFileOf file data →
      ∃ r, loadPicture tree path = .ok r ∧ r.width = 320 ∧ r.height = 200 ∧ r.pixels.size = 320 * 200 ∧
        ∀ cx < 40, ∀ cy < 25,
          Multicolor.renderChecked (sharedAt data (cy * 40 + cx)) (localAt data (cy * 40 + cx))
              (rowsAt data (cy * 40 + cx)) = .ok (r.cell (8 * cx) (8 * cy)) ∧
            (Multicolor.encode (sharedAt data (cy * 40 + cx)) (r.cell (8 * cx) (8 * cy))).error = 0) ∧
      (file.length ≠ 10001 → file.length ≠ 10003 → loadPicture tree path = .error (.size file.length)) := by
  constructor
  · intro data hlen hfile
    refine ⟨_, loadPicture_of_isFileOf h hlen hfile, rfl, rfl, Raster.size_pixels_ofFn _, fun cx hcx cy hcy => ?_⟩
    have hlc := localAt_lt data (cy * 40 + cx)
    have hrows : (rowsAt data (cy * 40 + cx)).length = 8 := by rw [rowsAt_eq hlen (by omega)]; simp
    rw [cell_raster hlen hcx hcy]
    exact ⟨Multicolor.renderChecked_eq (sharedAt_wellFormed data _) (by omega) hrows,
      Multicolor.encode_render_error _ hlc _⟩
  · intro hlen hlen'
    have hpicture := ofBytes_of_length_ne hlen hlen'
    simp only [loadPicture, h, Except.mapError, bind, Except.bind, hpicture]

def disk (file : Bytes) : FileTree :=
  { root := ["w"], directories := [], files := [(["w", "i"], ⟨.data file, 0⟩)], clock := 1 }

theorem bytes_disk (file : Bytes) : (disk file).bytes "i" = .ok file := rfl

/-- One byte many times, another one many times, and a last one. -/
def bands (n m : Nat) (a b c : UInt8) : Bytes :=
  List.replicate n a ++ (List.replicate m b ++ [c])

theorem length_bands (n m : Nat) (a b c : UInt8) : (bands n m a b c).length = n + m + 1 := by
  simp [bands, Nat.add_assoc]

theorem getD_bands (n m : Nat) (a b c : UInt8) (i : Nat) :
    (bands n m a b c).getD i 0 = if i < n then a else if i < n + m then b else if i = n + m then c else 0 := by
  grind [bands]

/-- The data of a picture in which all characters look alike. -/
def uniform (row color last : UInt8) : Bytes :=
  bands 8000 2000 row color last

theorem rowsAt_uniform (row color last : UInt8) {char : Nat} (hc : char < 1000) :
    rowsAt (uniform row color last) char = List.replicate 8 row := by
  rw [rowsAt_eq (length_bands _ _ _ _ _) hc]
  refine List.map_eq_replicate_iff.mpr fun y hy => ?_
  have hy := List.mem_range.mp hy
  rw [uniform, getD_bands, if_pos (by omega)]

/-- The last character of a file with two bytes in front, and a file that is too short. -/
theorem loadPicture_cells_uniform :
    (∃ r, loadPicture (disk (0 :: 96 :: uniform 0x1b 0x52 6)) "i" = .ok r ∧
      Multicolor.renderChecked ⟨6, 5, 2⟩ 2 (List.replicate 8 0x1b) = .ok (r.cell (8 * 39) (8 * 24)) ∧
      (Multicolor.encode ⟨6, 5, 2⟩ (r.cell (8 * 39) (8 * 24))).error = 0) ∧
    loadPicture (disk [0, 96]) "i" = .error (.size 2) := by
  have hbyte : ∀ i, (uniform 0x1b 0x52 6).getD i 0 =
      if i < 8000 then 0x1b else if i < 10000 then 0x52 else if i = 10000 then 6 else 0 := getD_bands _ _ _ _ _
  have hshared : sharedAt (uniform 0x1b 0x52 6) (24 * 40 + 39) = ⟨6, 5, 2⟩ := by
    rw [sharedAt, background, hbyte, hbyte]
    rfl
  have hlocal : localAt (uniform 0x1b 0x52 6) (24 * 40 + 39) = 2 := by
    rw [localAt, hbyte]
    rfl
  obtain ⟨r, hload, _, _, _, hcells⟩ :=
    (loadPicture_cells (bytes_disk (0 :: 96 :: uniform 0x1b 0x52 6))).1 _ (length_bands _ _ _ _ _) (.inr ⟨0, 96, rfl⟩)
  obtain ⟨hrender, herror⟩ := hcells 39 (by decide) 24 (by decide)
  rw [hshared, hlocal, rowsAt_uniform _ _ _ (by decide)] at hrender
  rw [hshared] at herror
  exact ⟨⟨r, hload, hrender, herror⟩, (loadPicture_cells (bytes_disk [0, 96])).2 (by decide) (by decide)⟩

end Koala

end EscapeRoom
