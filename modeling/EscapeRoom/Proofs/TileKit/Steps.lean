import EscapeRoom.Proofs.ExactRuns
import EscapeRoom.Proofs.Tileset.Results
import EscapeRoom.Proofs.Tileset.Steps
import EscapeRoom.Proofs.TileKit.Lines

/-!
# Reading the lines of a kit's tileset

What each kind of line of a kit's tileset does when it is read, and when it is read without an issue.
-/

namespace EscapeRoom

open Report

namespace Tileset

variable {line : Line} {d : Dialect} {place : Surroundings} {p p' : Progress} {ts : Tileset} {fields : Fields}
  {name : String}

theorem not_yields_flagBits (hend : line.text ≠ "END") (hh : firstWord line = "FLAGBITS") (hts : p.tileset = some ts) :
    ¬(readLine line d place p).Yields p' := by
  unfold readLine
  rw [if_neg hend]
  dsimp only
  rw [← firstWord, hh, if_neg (by decide), hts]
  simp [yields_reportAtIf]

theorem not_yields_header (hend : line.text ≠ "END") (hh : firstWord line = "TSET")
    (hs : (Fields.scan line.text).has "tileSize" = false) : ¬(readLine line d place p).Yields p' := by
  unfold readLine
  rw [if_neg hend]
  dsimp only
  rw [← firstWord, if_pos hh]
  simp [readHeader, readSizeTexts, yields_reportAtIf, hs]

theorem yields_readChars {text : String} {q q' : Quad Int} (hf : fields.get? "chars" = some text)
    (hp : parseQuad parseScreenCode text = .ok q) (hr : ∀ n ∈ q.toList, 0 ≤ n ∧ n ≤ 255) :
    (readChars line fields).Yields q' ↔ q = q' := by
  unfold readChars
  simp only [hf, yields_bind, valueOr_yields, hp, Except.ok.injEq, yields_forIn, yields_reportAtIf, outside_eq_false, yields_pure]
  constructor
  · rintro ⟨_, rfl, _, _, h⟩
    exact h
  · rintro rfl
    exact ⟨q, rfl, ⟨⟩, hr, rfl⟩

theorem yields_readColors {text : String} {q : Quad Int} {r : ColorMode × Quad Int}
    (hf : fields.get? "colors" = some text) (hp : parseQuad (parseColor d.colors) text = .ok q)
    (hr : ∀ n ∈ q.toList, 0 ≤ n ∧ n ≤ 15) : (readColors line d fields).Yields r ↔ (.perQuadrant, q) = r := by
  unfold readColors
  simp only [hf, pure_bind, yields_bind, valueOr_yields, hp, Except.ok.injEq, yields_forIn, yields_reportAtIf, outside_eq_false,
    yields_pure]
  constructor
  · rintro ⟨_, rfl, _, _, h⟩
    exact h
  · rintro rfl
    exact ⟨q, rfl, ⟨⟩, hr, rfl⟩

theorem yields_readFlags {names : List String} {mask : Nat} (hne : names ≠ [])
    (hn : ∀ name ∈ names, name ≠ "" ∧ Text.trim name = name ∧ '|' ∉ name.toList)
    (hf : fields.getD "flags" "" = Text.join "|" names) :
    (readFlags line fields).Yields mask ↔ (∀ name ∈ names, (flagBit? (Text.upper name)).isSome = true) ∧
      TileKit.flagMask names = mask := by
  rw [readFlags, hf, Text.parts_join rfl (fun name hna => (hn name hna).2.2) hne, TileKit.flagMask]
  generalize 0 = start
  clear hne hf
  induction names generalizing start with
  | nil => simp
  | cons name names ih =>
    rw [List.forall_mem_cons] at hn
    obtain ⟨hne, ht, -⟩ := hn.1
    have hu : (Text.upper name).isEmpty = false := by simpa using Text.upper_ne_empty hne
    rw [List.foldlM_cons, yields_bind, List.foldl_cons, List.forall_mem_cons]
    dsimp only
    rw [ht, hu, if_neg Bool.false_ne_true]
    cases hbit : flagBit? (Text.upper name) with
    | none => simp
    | some bit => simpa using ih hn.2 (start ||| 1 <<< bit)

theorem lt_pow_maxDigits {n : Nat} (h : n ≤ 255) : n < Nat.pow 10 Number.maxDigits := by
  have hl : ∀ k, 3 ≤ k → n < Nat.pow 10 k := by
    intro k hk
    exact Nat.lt_of_lt_of_le (Nat.lt_of_le_of_lt h (by decide)) (Nat.pow_le_pow_right (by decide) hk)
  exact hl _ (by decide)

theorem yields_addSectionTile
    (hf : Fields.scan (Text.trim (Text.dropChars name.length line.text)) = fields) (hid : fields.get? "id" = none) :
    (addSectionTile line d p ts name).Yields p' ↔ p.nextId.natAbs < Nat.pow 10 Number.maxDigits ∧
      (addTile line d { p with nextId := p.nextId + 1 } ts p.nextId name fields).Yields p' := by
  simp only [addSectionTile, hf, hid, pure_bind]
  rw [if_pos (Int.le_refl p.nextId)]
  split
  · rename_i hl
    exact iff_of_false (by simp) fun h => Nat.not_lt.mpr hl h.1
  · rename_i hs
    exact (and_iff_right (Nat.not_le.mp hs)).symm

theorem not_yields_addTile {id : Int} (h : fields.get? "chars" = none) :
    ¬(addTile line d p ts id name fields).Yields p' := by
  simp [addTile, readChars, h]

theorem yields_checkId {id id' : Int} : (checkId line id).Yields id' ↔ (0 ≤ id ∧ id ≤ 255) ∧ id = id' := by
  unfold checkId
  split
  · rename_i hout
    have hout : ¬(0 ≤ id ∧ id ≤ 255) := by
      rw [← outside_eq_false, hout]
      exact Bool.true_eq_false.mp
    simp [hout]
  · rename_i hin
    rw [Bool.not_eq_true, outside_eq_false] at hin
    simp [hin]

theorem charmap_of_addCharmapEntry {parts : List String} (h : (addCharmapEntry line p parts).Yields p') :
    ∃ charmap, p' = { p with charmap } := by
  simp only [addCharmapEntry, yields_bind] at h
  obtain ⟨_, _, _, _, h⟩ := h
  split at h
  · simp at h
  · simp only [yields_bind, yields_pure] at h
    obtain ⟨_, _, rfl⟩ := h
    exact ⟨_, rfl⟩

theorem yields_addTile {id : Int} {chars : Quad Int} {colors : ColorMode × Quad Int}
    {known : Prop} {mask : Nat} (hn : name ≠ "") (hc : ∀ q, (readChars line fields).Yields q ↔ chars = q)
    (hco : ∀ r, (readColors line d fields).Yields r ↔ colors = r)
    (hf : ∀ m, (readFlags line fields).Yields m ↔ known ∧ mask = m) :
    (addTile line d p ts id name fields).Yields p' ↔ (0 ≤ id ∧ id ≤ 255) ∧ known ∧ nameKey name ∉ p.names.keys ∧
      id ∉ ts.tiles.keys ∧ { p with
        draft := ⟨some id, name, fields⟩
        names := p.names.put (nameKey name) id
        tileset := some { ts with tiles := ts.tiles.put id ⟨id, name, chars, colors.1, colors.2, mask⟩ } } = p' := by
  have he : name.isEmpty = false := by simpa using hn
  rw [← Table.has_eq_false_iff, ← Table.has_eq_false_iff]
  simp only [addTile, yields_bind, yields_checkId, hc, hco, hf, yields_reportAtIf, he, Bool.false_eq_true,
    if_false]
  constructor
  · rintro ⟨_, ⟨hid, rfl⟩, _, rfl, _, rfl, _, ⟨hk, rfl⟩, _, hkey, _, hnew, h⟩
    rw [hkey, hnew, Bool.or_false, if_neg Bool.false_ne_true, yields_pure] at h
    exact ⟨hid, hk, hkey, hnew, h⟩
  · rintro ⟨hid, hk, hkey, hnew, rfl⟩
    refine ⟨_, ⟨hid, rfl⟩, _, rfl, _, rfl, _, ⟨hk, rfl⟩, ⟨⟩, hkey, ⟨⟩, hnew, ?_⟩
    rw [hkey, hnew, Bool.or_false, if_neg Bool.false_ne_true, yields_pure]

end Tileset

namespace TileKit

open Tileset
open Level (lineText)
open Listing (Legible Whole)

variable {line : Line} {place : Surroundings} {p p' : Progress} {ts : Tileset} {name : String} {rest : List String}

/-! ### Words and fields -/

theorem firstWord_join (hn : Text.IsWord name) (hl : line.text = Text.join " " (name :: rest)) :
    firstWord line = name := by
  rw [firstWord, hl, Text.words_join_cons hn]
  rfl

theorem ne_end_of_join (hr : rest ≠ []) (hl : line.text = Text.join " " (name :: rest)) : line.text ≠ "END" := by
  intro hend
  have hb : ' ' ∈ line.text.toList := by
    rw [hl, Text.toList_join_cons " " name rest hr]
    simp
  rw [hend] at hb
  exact absurd hb (by decide)

theorem lineText_plain (name : String) (pieces : List Piece) :
    lineText (.plain name :: pieces) = Text.join " " (name :: pieces.map Piece.text) := rfl

theorem scan_behind_name {pieces : List Piece} (hne : pieces ≠ []) (h : ∀ q ∈ .plain name :: pieces, q.Printable) :
    Fields.scan (Text.trim (Text.dropChars name.length (lineText (.plain name :: pieces)))) =
      Table.ofEntries (pieces.filterMap Piece.field?) := by
  rw [List.forall_mem_cons] at h
  have hl := Piece.isLine_lineText hne h.2
  have hdr : Text.dropChars name.length (lineText (.plain name :: pieces)) = " " ++ lineText pieces := by
    rw [Text.dropChars, lineText, List.map_cons, Text.toList_join_cons " " _ _ (by simpa using hne), Piece.text,
      ← String.length_toList, List.drop_left, ← String.toList_inj, String.toList_ofList, String.toList_append, lineText]
  have ht : Text.trim (" " ++ lineText pieces) = lineText pieces := by
    have hb : ∀ c ∈ " ".toList, Text.isBlank c = true := by decide
    rw [Text.trim, String.toList_append, Text.trimChars, Text.trimStart_append hb, ← Text.trimChars, hl.trimmed,
      String.ofList_toList]
  rw [hdr, ht, Piece.scan_lineText h.2]

/-! ### Outlines -/

/-- What is known after some lines, without the places of what was read. -/
structure Outline where
  tileset : Option Tileset
  names : Table String Int
  part : Option Part
  nextId : Int
  /-- Map characters and the keys of what they stand for. -/
  charmap : List (String × String)
  /-- The texts and the names of objects. -/
  objects : List (String × String)

def outline (p : Progress) : Outline where
  tileset := p.tileset
  names := p.names
  part := p.part
  nextId := p.nextId
  charmap := p.charmap.map fun e => (e.key, e.target)
  objects := p.objects.map fun e => (e.text, e.name)

variable {o : Outline}

theorem exact_end (ho : outline p = o) (hl : line.text = "END") :
    (readLine line fullDialect place p).Exact True fun p => outline p = { o with part := none } := by
  subst ho
  exact .of_yields_iff (b := { p with part := none }) (fun p' => by rw [readLine_end hl, true_and]) rfl

theorem exact_section {part : Part} {word : String} (hp : partNamed? word = some part) (hw : IsTileName word)
    (hend : word ≠ "END") (ho : outline p = o) (hts : o.tileset = some ts) (hl : line.text = word) :
    (readLine line fullDialect place p).Exact True fun p => outline p = { o with part := some part } := by
  subst ho
  have hj : line.text = Text.join " " [word] := hl
  have hf : firstWord line = word := firstWord_join hw.isWord hj
  refine .of_yields_iff (b := { p with part := some part }) (fun p' => ?_) rfl
  rw [readLine_section (hl ▸ hend) (hf ▸ hp) hts, true_and]

/-! ### Map characters -/

theorem exact_entryText {c : Char} (hc : c ∈ mapChars) (hn : IsTileName name) (ho : outline p = o)
    (hp : o.part = some .charmap) (hts : o.tileset = some ts) (hl : line.text = entryText c name) :
    (readLine line fullDialect place p).Exact (String.singleton c ∉ o.charmap.map (·.1)) fun p =>
      outline p = { o with charmap := o.charmap ++ [(String.singleton c, nameKey name)] } := by
  subst ho
  have hch : ∀ c ∈ mapChars, Text.isBlank c = false ∧
      String.singleton c ∉ "TILE" :: "TSET" :: "FLAGBITS" :: sectionWords := by decide +kernel
  obtain ⟨hb, hk⟩ := hch c hc
  have hkey : Text.IsWord (String.singleton c) := ⟨by simp, by simpa using hb⟩
  have hw : Text.words line.text = [String.singleton c, name] := by
    rw [hl, entryText]
    exact Text.words_join (by simp [hkey, hn.isWord])
  have hf : firstWord line = String.singleton c := firstWord_join hkey hl
  rw [List.mem_cons, not_or] at hk
  refine .of_yields_iff (b := { p with charmap := p.charmap ++ [⟨line.number, String.singleton c, nameKey name⟩] })
    (fun p' => ?_) (by simp [outline])
  have hp : p.part = some .charmap := hp
  rw [readLine_entry (ne_end_of_join (by simp) hl) (hf ▸ hk.2) hts, hw]
  simp [readEntry, hp, hk.1, addCharmapEntry, yields_reportAtIf, outline]

/-! ### Objects -/

variable {e : ObjectGroup × List String}

theorem ne_end_objectText (hl : line.text = Listing.objectText e.1 e.2) : line.text ≠ "END" := by
  rw [Listing.objectText, lineText_plain] at hl
  exact ne_end_of_join (by simp [Listing.objectPieces]) hl

theorem firstWord_objectText (hl : line.text = Listing.objectText e.1 e.2) : firstWord line = e.1.name := by
  rw [Listing.objectText, lineText_plain] at hl
  exact firstWord_join (Listing.isTileName_groupName e.1).isWord hl

def objectFields (g : ObjectGroup) (names : List String) : Fields :=
  [("size", toString g.size.1 ++ "x" ++ toString g.size.2), ("tiles", Text.join "," names)]

theorem scan_objectText (he : Whole e) : Fields.scan (Listing.objectText e.1 e.2) = objectFields e.1 e.2 :=
  Piece.scan_lineText he.printable

theorem scan_behind_objectName (he : Whole e) :
    Fields.scan (Text.trim (Text.dropChars e.1.name.length (Listing.objectText e.1 e.2))) = objectFields e.1 e.2 :=
  scan_behind_name (by simp [Listing.objectPieces]) he.printable

/-- The words that no object can have for its name in a tileset. -/
def reservedWords : List String :=
  ["TSET", "FLAGBITS", "TILE"]

theorem exact_objectText (he : Whole e) (hn : e.1.name ∉ sectionWords) (ho : outline p = o)
    (hp : o.part = some .objects) (hts : o.tileset = some ts) (hl : line.text = Listing.objectText e.1 e.2) :
    (readLine line fullDialect place p).Exact (e.1.name ∉ reservedWords) fun p =>
      outline p = { o with objects := o.objects ++ [(Listing.objectText e.1 e.2, e.1.name)] } := by
  subst ho
  have hend := ne_end_objectText hl
  have hf := firstWord_objectText hl
  have hp : p.part = some .objects := hp
  have hts : p.tileset = some ts := hts
  refine .of_yields_iff (b := addObjectEntry line p e.1.name) (fun p' => ?_) (by simp [outline, addObjectEntry, hl])
  by_cases ht : e.1.name = "TSET"
  · refine iff_of_false (not_yields_header hend (hf.trans ht) ?_) (by simp [reservedWords, ht])
    rw [hl, scan_objectText he]
    rfl
  · by_cases hb : e.1.name = "FLAGBITS"
    · exact iff_of_false (not_yields_flagBits hend (hf.trans hb) hts) (by simp [reservedWords, hb])
    · rw [readLine_entry hend (by rw [hf]; simp [ht, hb, hn]) hts]
      have hh : (Text.words line.text).headD "" = e.1.name := hf
      by_cases hti : e.1.name = "TILE"
      · have hid : (objectFields e.1 e.2).get? "id" = none := rfl
        refine iff_of_false ?_ (by simp [reservedWords, hti])
        rw [readEntry, hh, hp, if_neg (by decide), if_pos hti]
        simp only [addLoneTile, hl, scan_objectText he, hid]
        simp
      · rw [readEntry, hh, hp, if_neg (by decide), if_neg hti]
        simp [reservedWords, ht, hb, hti]

/-- Whatever its name is, the line of an object leaves the tiles as they are. -/
theorem tiles_of_objectText (he : Whole e) (hts : p.tileset = some ts) (hl : line.text = Listing.objectText e.1 e.2)
    (h : (readLine line fullDialect place p).Yields p') :
    p'.tileset = p.tileset ∧ p'.names = p.names ∧ p'.nextId = p.nextId := by
  have hend := ne_end_objectText hl
  have hf := firstWord_objectText hl
  have hh : (Text.words line.text).headD "" = e.1.name := hf
  have hs := scan_objectText he
  by_cases ht : e.1.name = "TSET"
  · refine absurd h (not_yields_header hend (hf.trans ht) ?_)
    rw [hl, hs]
    rfl
  by_cases hb : e.1.name = "FLAGBITS"
  · exact absurd h (not_yields_flagBits hend (hf.trans hb) hts)
  cases hp : partNamed? e.1.name with
  | some part =>
    rw [readLine_section hend (hf ▸ hp) hts] at h
    exact h ▸ ⟨rfl, rfl, rfl⟩
  | none =>
    have hse := partNamed?_eq_none.mp hp
    rw [readLine_entry hend (by rw [hf]; simp [ht, hb, hse]) hts, readEntry, hh] at h
    split at h
    · rw [yields_addSectionTile (hl ▸ scan_behind_objectName he) rfl] at h
      exact absurd h.2 (not_yields_addTile rfl)
    · split at h
      · have hid : (objectFields e.1 e.2).get? "id" = none := rfl
        simp only [addLoneTile, hl, hs, hid] at h
        simp at h
      · split at h
        · obtain ⟨charmap, rfl⟩ := charmap_of_addCharmapEntry h
          exact ⟨rfl, rfl, rfl⟩
        · exact yields_pure.mp h ▸ ⟨rfl, rfl, rfl⟩
        · simp [addStrayLine] at h

/-! ### Tiles -/

variable {c : Charset} {t : KitTile}

def tileFields (c : Charset) (t : KitTile) : Fields :=
  [("chars", Listing.slotText c t), ("colors", Listing.colorText t), ("flags", Text.join "|" (flagList t.flags))]

def tileOf (c : Charset) (t : KitTile) (id : Int) : Tile where
  id := id
  name := t.name
  chars := (t.block.slots c).map Int.ofNat
  colorMode := .perQuadrant
  colors := t.block.colors.map Int.ofNat
  flags := flagMask (flagList t.flags)

theorem parseQuad_slotText (h : Legible c t) :
    parseQuad parseScreenCode (Listing.slotText c t) = .ok ((t.block.slots c).map Int.ofNat) :=
  parseQuad_join (fun n hn => isNameChar_slot (h.slots n hn)) fun n hn => parseScreenCode_slot (h.slots n hn)

theorem parseQuad_colorText (h : Legible c t) :
    parseQuad (parseColor fullDialect.colors) (Listing.colorText t) = .ok (t.block.colors.map Int.ofNat) :=
  parseQuad_join (fun n hn => (isNameChar_colorName n (h.sound.colors n hn)).2)
    fun n hn => parseColor_colorName n (h.sound.colors n hn)

theorem isFlag_of_mem_flagList {flags : String} (h : IsFlagText flags) (hn : name ∈ flagList flags) :
    name ≠ "" ∧ Text.trim name = name ∧ '|' ∉ name.toList := by
  have hp := h.2 name hn
  refine ⟨?_, Text.trim_of_forall fun c hc => Listing.isBlank_of_separatesFlags (hp c hc), fun hc => ?_⟩
  · simpa using (List.mem_filter.mp hn).2
  · exact absurd (hp _ hc) (by decide)

theorem scan_tileText (h : Legible c t) : Fields.scan (Listing.tileText c t) = tileFields c t :=
  Piece.scan_lineText h.printable

theorem scan_behind_tileName (h : Legible c t) :
    Fields.scan (Text.trim (Text.dropChars t.name.length (Listing.tileText c t))) = tileFields c t :=
  scan_behind_name (by simp [Listing.tilePieces]) h.printable

theorem forall_mem_map_ofNat {q : Quad Nat} {n : Nat} (h : ∀ k ∈ q.toList, k < n + 1) :
    ∀ k ∈ (q.map Int.ofNat).toList, 0 ≤ k ∧ k ≤ (n : Int) := by
  simp only [Quad.map, Quad.toList, List.forall_mem_cons, List.not_mem_nil, false_implies, implies_true, and_true,
    Int.ofNat_eq_natCast] at h ⊢
  omega

theorem exact_tileText (h : Legible c t) (hn : t.name ∉ sectionWords) (ho : outline p = o)
    (hp : o.part = some .tiles) (hts : o.tileset = some ts) (hl : line.text = Listing.tileText c t) :
    (readLine line fullDialect place p).Exact (t.name ∉ ["TSET", "FLAGBITS"] ∧ (0 ≤ o.nextId ∧ o.nextId ≤ 255) ∧
        (∀ name ∈ flagList t.flags, (flagBit? (Text.upper name)).isSome = true) ∧
        nameKey t.name ∉ o.names.keys ∧ o.nextId ∉ ts.tiles.keys) fun p =>
      outline p = { o with
        nextId := o.nextId + 1
        names := o.names.put (nameKey t.name) o.nextId
        tileset := some { ts with tiles := ts.tiles.put o.nextId (tileOf c t o.nextId) } } := by
  subst ho
  have hp : p.part = some .tiles := hp
  have hts : p.tileset = some ts := hts
  have ht : line.text = Text.join " " (t.name :: (Listing.tilePieces c t).map Piece.text) := hl
  have hend : line.text ≠ "END" := ne_end_of_join (by simp [Listing.tilePieces]) ht
  have hf : firstWord line = t.name := firstWord_join h.sound.name.isWord ht
  refine .of_yields_iff (b := { p with
    nextId := p.nextId + 1
    draft := ⟨some p.nextId, t.name, tileFields c t⟩
    names := p.names.put (nameKey t.name) p.nextId
    tileset := some { ts with tiles := ts.tiles.put p.nextId (tileOf c t p.nextId) } }) (fun p' => ?_) rfl
  by_cases htt : t.name = "TSET"
  · refine iff_of_false (not_yields_header hend (hf.trans htt) ?_) (by simp [htt])
    rw [hl, scan_tileText h]
    rfl
  · by_cases hb : t.name = "FLAGBITS"
    · exact iff_of_false (not_yields_flagBits hend (hf.trans hb) hts) (by simp [hb])
    · rw [readLine_entry hend (by rw [hf]; simp [htt, hb, hn]) hts]
      have hh : (Text.words line.text).headD "" = t.name := hf
      rw [readEntry, hh, if_pos hp, yields_addSectionTile (hl ▸ scan_behind_tileName h) rfl,
        yields_addTile h.sound.name.1 (fun q => yields_readChars rfl (parseQuad_slotText h) (forall_mem_map_ofNat h.slots))
          (fun r => yields_readColors rfl (parseQuad_colorText h) (forall_mem_map_ofNat h.sound.colors))
          fun m => yields_readFlags h.sound.flags.1 (fun name hn => isFlag_of_mem_flagList h.sound.flags hn) rfl]
      constructor
      · rintro ⟨-, hid, hfl, hkey, hnew, rfl⟩
        exact ⟨⟨by simp [htt, hb], hid, hfl, hkey, hnew⟩, rfl⟩
      · rintro ⟨⟨-, hid, hfl, hkey, hnew⟩, rfl⟩
        have hs : p.nextId.natAbs ≤ 255 := by
          have hid : 0 ≤ p.nextId ∧ p.nextId ≤ 255 := hid
          omega
        exact ⟨lt_pow_maxDigits hs, hid, hfl, hkey, hnew, rfl⟩

/-! ### Headers -/

variable {charset : String} {s : SharedColors}

def headerFields (name charset : String) (s : SharedColors) : Fields :=
  [("name", name), ("tileSize", "2x2"), ("bgColor", Listing.colorName s.background),
    ("mc1Color", Listing.colorName s.multicolor1), ("mc2Color", Listing.colorName s.multicolor2), ("charset", charset)]

def headerTileset (name charset : String) (s : SharedColors) : Tileset where
  name := name
  background := s.background
  multicolor1 := s.multicolor1
  multicolor2 := s.multicolor2
  charset := charset

theorem scan_headerLine (h : IsHeader name charset s) :
    Fields.scan (headerLine name charset s) = headerFields name charset s :=
  Piece.scan_lineText h.printable

theorem yields_readSharedColor {color : SharedColor} {n : Nat} {z : Int} (hn : n < 16)
    (hf : (headerFields name charset s).getD color.key "0" = Listing.colorName n) :
    (readSharedColor line fullDialect (headerFields name charset s) color).Yields z ↔ (n : Int) = z := by
  rw [readSharedColor, hf]
  rw [valueOr_yields, parseColor_colorName n hn, Except.ok.injEq]

theorem yields_readSizeTexts {r : String × String × String} :
    (readSizeTexts line (headerFields name charset s)).Yields r ↔ ("2x2", "2", "2") = r := by
  have hs : (headerFields name charset s).has "tileSize" = true := rfl
  have ht : Text.lower ((headerFields name charset s).getD "tileSize" "2x2") = "2x2" := by
    have hget : (headerFields name charset s).getD "tileSize" "2x2" = "2x2" := rfl
    rw [hget]
    decide
  have hcut : Text.cut 'x' "2x2" = some ("2", "2") := by decide
  simp only [readSizeTexts, hs, ht, hcut, yields_bind, yields_reportAtIf, yields_pure]
  simp

theorem yields_readSizeNumbers {r : Int × Int} : (readSizeNumbers line "2x2" "2" "2").Yields r ↔ (2, 2) = r := by
  have hn : Number.parseLiteral .decimal "2" = .ok 2 := by decide
  rw [readSizeNumbers, hn]
  exact yields_pure

theorem yields_readCharset {r : String} : (readCharset line place (headerFields name charset s)).Yields r ↔
    place.isFile (place.charsetPath charset) = true ∧ charset = r := by
  have hf : (headerFields name charset s).get? "charset" = some charset := rfl
  simp only [readCharset, hf, yields_bind, yields_reportAtIf, yields_pure, Bool.not_eq_false']
  simp

theorem yields_readHeader (hs : s.background < 16 ∧ s.multicolor1 < 16 ∧ s.multicolor2 < 16) :
    (readHeader line fullDialect place (headerFields name charset s)).Yields ts ↔
      place.isFile (place.charsetPath charset) = true ∧ headerTileset name charset s = ts := by
  have hc : readCount line (headerFields name charset s) = pure 0 := rfl
  have hn : (headerFields name charset s).getD "name" (Path.baseName place.path) = name := rfl
  have hhas : ∀ color ∈ [SharedColor.background, .multicolor1, .multicolor2],
      (!(headerFields name charset s).has color.key) = false := by
    simp only [List.forall_mem_cons, List.not_mem_nil, false_implies, implies_true, and_true]
    exact ⟨rfl, rfl, rfl⟩
  simp only [readHeader, hc, yields_bind, yields_readSizeTexts, yields_readCharset, yields_forIn, yields_reportAtIf,
    yields_pure]
  constructor
  · rintro ⟨_, rfl, _, rfl, r, hnu, _, -, _, -, z, hz, z₁, hz₁, z₂, hz₂, _, -, _, ⟨hf, rfl⟩, rfl⟩
    obtain rfl := yields_readSizeNumbers.mp hnu
    obtain rfl := (yields_readSharedColor hs.1 rfl).mp hz
    obtain rfl := (yields_readSharedColor hs.2.1 rfl).mp hz₁
    obtain rfl := (yields_readSharedColor hs.2.2 rfl).mp hz₂
    rw [hn]
    exact ⟨hf, rfl⟩
  · rintro ⟨hf, rfl⟩
    refine ⟨_, rfl, _, rfl, _, yields_readSizeNumbers.mpr rfl, ⟨⟩, rfl, ⟨⟩, hhas, _, (yields_readSharedColor hs.1 rfl).mpr rfl,
      _, (yields_readSharedColor hs.2.1 rfl).mpr rfl, _, (yields_readSharedColor hs.2.2 rfl).mpr rfl, ⟨⟩, ?_, _,
      ⟨hf, rfl⟩, ?_⟩
    · simp only [List.forall_mem_cons, List.not_mem_nil, false_implies, implies_true, and_true, outside_eq_false]
      omega
    · rw [hn]
      rfl

theorem exact_headerLine (h : IsHeader name charset s) (ho : outline p = o)
    (hl : line.text = headerLine name charset s) :
    (readLine line fullDialect place p).Exact (place.isFile (place.charsetPath charset) = true) fun p =>
      outline p = { o with tileset := some (headerTileset name charset s), names := [] } := by
  subst ho
  have ht : line.text = Text.join " " ("TSET" :: (headerPieces name charset s).map Piece.text) := hl
  have hend : line.text ≠ "END" := ne_end_of_join (by simp [headerPieces]) ht
  have hf : (Text.words line.text).headD "" = "TSET" :=
    firstWord_join (by exact ⟨by decide, by decide⟩) ht
  refine .of_yields_iff (b := { p with
    tileset := some (headerTileset name charset s)
    names := []
    draft := { p.draft with name := name, fields := headerFields name charset s } }) (fun p' => ?_) rfl
  rw [readLine, if_neg hend]
  dsimp only
  rw [hf, if_pos rfl, hl, scan_headerLine h, yields_bind]
  simp only [yields_readHeader h.colors, yields_pure]
  constructor
  · rintro ⟨_, ⟨hfi, rfl⟩, h⟩
    exact ⟨hfi, h⟩
  · rintro ⟨hfi, h⟩
    exact ⟨_, ⟨hfi, rfl⟩, h⟩

end TileKit

end EscapeRoom
