import EscapeRoom.Proofs.Level.Printing
import EscapeRoom.Proofs.Tileset.Recovery
import EscapeRoom.Tileset.Texts

/-!
# Constants for tiles

The header of tile ids has one line `#define` for each tile. Names of tiles are told apart when they are read, by their
upper case without blanks around and without `TILE_` in front, but a constant shows less of a name: every character
that is no ASCII letter or digit is an underscore in it. So two tiles can come to share a constant, and they do so
exactly if their names differ only in such characters and in the case of letters.
-/

namespace EscapeRoom.Tileset

open Report

/-! ### What a header defines -/

/-- The name and the value in a line `#define name value`. -/
def definedBy? (line : String) : Option (String × String) :=
  match Text.words line with
  | [directive, name, value] => if directive = "#define" then some (name, value) else none
  | _ => none

/-- What the lines of a header define, in their order. -/
def definitions (header : String) : List (String × String) :=
  (Text.lines header).filterMap definedBy?

/-- All that a constant shows of a name: its letters in upper case and its digits, between underscores. -/
def skeleton (name : String) : List Char :=
  name.toList.map fun c => if Text.isAsciiAlphanumeric c then c.toUpper else '_'

theorem isAsciiAlphanumeric_lt {c : Char} (h : Text.isAsciiAlphanumeric c = true) : c.toNat < 128 :=
  Text.toNat_lt_of_isNameChar (by rw [Text.isNameChar, h, Bool.true_or])

theorem upperChar_identifier (c : Char) :
    Text.upperChar (if Text.isAsciiAlphanumeric c || c = '_' then c else '_') =
      [if Text.isAsciiAlphanumeric c then c.toUpper else '_'] := by
  have hascii : ∀ n < 128, Text.isAsciiAlphanumeric (Char.ofNat n) = true →
      Text.upperChar (Char.ofNat n) = [(Char.ofNat n).toUpper] := by
    decide
  by_cases h : Text.isAsciiAlphanumeric c = true
  · have hc := hascii c.toNat (isAsciiAlphanumeric_lt h)
    rw [Char.ofNat_toNat] at hc
    simpa [h] using hc h
  · have hu : Text.upperChar '_' = ['_'] := by decide
    by_cases hc : c = '_' <;> simp [h, hc, hu]

theorem toList_upper_identifier (name : String) : (Text.upper (Text.identifier name)).toList = skeleton name := by
  rw [Text.upper, String.toList_ofList, Text.identifier, String.toList_ofList, List.flatMap_map, skeleton]
  simp only [upperChar_identifier]
  exact List.map_eq_flatMap.symm

theorem tileConstant_eq_iff {t t' : Tile} : tileConstant t = tileConstant t' ↔ skeleton t.name = skeleton t'.name := by
  rw [tileConstant, tileConstant, ← String.toList_inj, String.toList_append, String.toList_append,
    toList_upper_identifier, toList_upper_identifier, List.append_cancel_left_eq]

theorem isNameChar_tileConstant (t : Tile) : ∀ c ∈ (tileConstant t).toList, Text.isNameChar c = true := by
  have hascii : ∀ n < 128, Text.isAsciiAlphanumeric (Char.ofNat n) = true →
      Text.isNameChar (Char.ofNat n).toUpper = true := by
    decide
  intro c hc
  rw [tileConstant, String.toList_append, toList_upper_identifier, List.mem_append] at hc
  rcases hc with hc | hc
  · revert c
    decide
  · obtain ⟨d, -, rfl⟩ := List.mem_map.mp hc
    by_cases h : Text.isAsciiAlphanumeric d = true
    · have hd := hascii d.toNat (isAsciiAlphanumeric_lt h)
      rw [Char.ofNat_toNat] at hd
      simpa [h] using hd h
    · simp [h, Text.isNameChar]

theorem isWord_tileConstant (t : Tile) : Text.IsWord (tileConstant t) := by
  refine ⟨?_, fun c hc => (Text.isNameChar_plain (isNameChar_tileConstant t c hc)).1⟩
  simp [tileConstant]

/-- The line that defines the constant of a tile. -/
def constantLine (t : Tile) : String :=
  Text.join " " ["#define", tileConstant t, Number.decimal t.id]

theorem definedBy?_constantLine (t : Tile) : definedBy? (constantLine t) = some (tileConstant t, Number.decimal t.id) := by
  have hwords : Text.words (constantLine t) = ["#define", tileConstant t, Number.decimal t.id] := by
    refine Text.words_join ?_
    simp only [List.forall_mem_cons, List.not_mem_nil, false_implies, implies_true, and_true]
    exact ⟨by decide, isWord_tileConstant t, (Level.isBare_toString t.id).isWord⟩
  rw [definedBy?, hwords]
  rfl

/-- The lines in front of the constants. -/
def idsPreamble : List String :=
  ["// Auto-generated by tilesetc.py", "#pragma once", "#include <stdint.h>", "", "/* Tile IDs */"]

theorem idsHeader_eq_unlines (ts : Tileset) :
    idsHeader ts = Text.unlines (idsPreamble ++ (ts.sortedTiles.map constantLine ++ [""])) := by
  have htop : Text.unlines idsPreamble =
      "// Auto-generated by tilesetc.py\n#pragma once\n#include <stdint.h>\n\n/* Tile IDs */\n" := rfl
  have hline : ∀ t : Tile, "#define " ++ tileConstant t ++ " " ++ Number.decimal t.id ++ "\n" = constantLine t ++ "\n" := by
    intro t
    simp [constantLine, Text.join, String.append_assoc]
  have hlines : Text.unlines (ts.sortedTiles.map constantLine) = String.join (ts.sortedTiles.map fun t =>
      "#define " ++ tileConstant t ++ " " ++ Number.decimal t.id ++ "\n") := by
    rw [Text.unlines, List.map_map]
    exact congrArg String.join (List.map_congr_left fun t _ => (hline t).symm)
  have hlast : Text.unlines [""] = "\n" := rfl
  rw [Text.unlines_append, Text.unlines_append, hlines, hlast, ← String.append_assoc]
  exact congrArg (· ++ _ ++ _) htop.symm

theorem not_mem_constantLine (t : Tile) : '\n' ∉ (constantLine t).toList := by
  have hname : '\n' ∉ (tileConstant t).toList := by
    intro h
    exact (Text.isNameChar_plain (isNameChar_tileConstant t _ h)).2.2 (by simp)
  have hid : '\n' ∉ (Number.decimal t.id).toList := Level.not_mem_toString (by simp)
  simp [constantLine, Text.join, hname, hid]

theorem definitions_idsHeader (ts : Tileset) :
    definitions (idsHeader ts) = ts.sortedTiles.map fun t => (tileConstant t, Number.decimal t.id) := by
  have htop : (∀ line ∈ idsPreamble ++ [""], '\n' ∉ line.toList) ∧ (idsPreamble ++ [""]).filterMap definedBy? = [] := by
    decide +kernel
  have hunbroken : ∀ line ∈ idsPreamble ++ (ts.sortedTiles.map constantLine ++ [""]), '\n' ∉ line.toList := by
    intro line hl
    rcases List.mem_append.mp hl with hl | hl
    · exact htop.1 line (List.mem_append_left _ hl)
    · rcases List.mem_append.mp hl with hl | hl
      · obtain ⟨t, -, rfl⟩ := List.mem_map.mp hl
        exact not_mem_constantLine t
      · exact htop.1 line (List.mem_append_right _ hl)
  rw [List.filterMap_append, List.append_eq_nil_iff] at htop
  rw [definitions, idsHeader_eq_unlines, Text.lines_unlines hunbroken, List.filterMap_append, List.filterMap_append,
    htop.2.1, htop.2.2, List.nil_append, List.append_nil, List.filterMap_map, List.filterMap_eq_map_iff_forall_eq_some]
  intro t _
  rw [Function.comp_apply, definedBy?_constantLine]

/-! ### Tiles that share a constant -/

/-- The constants of a tileset are good for its sources: every tile has one, no two definitions are for the same name,
and what a tile's constant stands for is the id of that tile. -/
structure Unambiguous (ts : Tileset) : Prop where
  defined : ∀ t ∈ ts.tiles.values, (tileConstant t, Number.decimal t.id) ∈ definitions (idsHeader ts)
  distinct : ((definitions (idsHeader ts)).map Prod.fst).Nodup
  own : ∀ t ∈ ts.tiles.values, ∀ v, (tileConstant t, v) ∈ definitions (idsHeader ts) → v = Number.decimal t.id

theorem nodup_values_of_built {ts : Tileset} (h : ts.Built) : ts.tiles.values.Nodup := by
  have hids : ts.tiles.values.map (·.id) = ts.tiles.keys := by
    rw [Table.values, List.map_map, Table.keys]
    exact List.map_congr_left fun e he => (tiles_of_built h e he).1
  exact .of_map _ (hids ▸ nodup_ids_of_built h)

theorem unambiguous_iff {ts : Tileset} (h : ts.Built) : Unambiguous ts ↔
    ∀ t ∈ ts.tiles.values, ∀ t' ∈ ts.tiles.values, skeleton t.name = skeleton t'.name → t = t' := by
  have hperm := sortedTiles_perm ts
  have hnames : ((definitions (idsHeader ts)).map Prod.fst).Nodup ↔
      ∀ t ∈ ts.tiles.values, ∀ t' ∈ ts.tiles.values, skeleton t.name = skeleton t'.name → t = t' := by
    rw [definitions_idsHeader, List.map_map, (hperm.map _).nodup_iff, List.nodup_map_iff_inj_on (nodup_values_of_built h)]
    simp only [Function.comp_apply, tileConstant_eq_iff]
  refine ⟨fun hts => hnames.mp hts.distinct, fun hinj => ⟨fun t ht => ?_, hnames.mpr hinj, fun t ht v hv => ?_⟩⟩
  · rw [definitions_idsHeader]
    exact List.mem_map_of_mem (hperm.mem_iff.mpr ht)
  · rw [definitions_idsHeader] at hv
    obtain ⟨t', ht', he⟩ := List.mem_map.mp hv
    rw [Prod.mk.injEq, tileConstant_eq_iff] at he
    rw [← he.2, hinj t' (hperm.mem_iff.mp ht') t ht he.1]

variable {s : Surroundings} {text : String} {ts : LinkedTileset}

theorem nodup_nameKeys_of_read (h : (read s text).Yields ts) : (ts.tiles.values.map fun t => nameKey t.name).Nodup := by
  simp only [read, yields_bind, yields_pure] at h
  obtain ⟨p, hp, _, hcount, objects, _, linked, hlinks, stamps, _, rfl⟩ := h
  obtain ⟨ts, hts, -, -, -, rfl⟩ := checkCount_checks hcount
  have horderly : p.Orderly := orderly_readLines rfl hp
  have htiles : linked.tiles = ts.tiles := by rw [toTileset_of_links hlinks]
  have hkeys := horderly.names
  rw [horderly.named ts hts, Table.keys, List.map_map, ← htiles] at hkeys
  rw [Table.values, List.map_map]
  simp only [Function.comp_def] at hkeys ⊢
  exact hkeys

/-- A name of ASCII word characters is looked up by its skeleton, up to a `TILE_` in front. -/
theorem nameKey_eq_of_skeleton {a b : String} (ha : ∀ c ∈ a.toList, Text.isNameChar c = true)
    (hb : ∀ c ∈ b.toList, Text.isNameChar c = true) (h : skeleton a = skeleton b) : nameKey a = nameKey b := by
  have hupper : ∀ {name : String}, (∀ c ∈ name.toList, Text.isNameChar c = true) →
      Text.upper (Text.trim name) = String.ofList (skeleton name) := by
    intro name hname
    rw [Text.trim_of_forall fun c hc => (Text.isNameChar_plain (hname c hc)).1, ← toList_upper_identifier,
      String.ofList_toList, Text.identifier_eq_self_iff.mpr hname]
  rw [nameKey, nameKey, hupper ha, hupper hb, h]

/-- The header of a tileset that was read without an issue defines a constant for each of its tiles, in the order of
their ids. The constants are unambiguous exactly if the tiles' names have different skeletons, as they do if all
names are of ASCII word characters. -/
theorem constants_of_read (h : (read s text).Yields ts) :
    definitions (idsHeader ts.toTileset) = ts.sortedTiles.map (fun t => (tileConstant t, Number.decimal t.id)) ∧
      (Unambiguous ts.toTileset ↔ ∀ t ∈ ts.tiles.values, ∀ t' ∈ ts.tiles.values,
        skeleton t.name = skeleton t'.name → t = t') ∧
      ((∀ t ∈ ts.tiles.values, ∀ c ∈ t.name.toList, Text.isNameChar c = true) → Unambiguous ts.toTileset) := by
  have hiff := unambiguous_iff (built_of_read h).1
  refine ⟨definitions_idsHeader ts.toTileset, hiff, fun hnames => hiff.mpr fun t ht t' ht' he => ?_⟩
  have hkey : nameKey t.name = nameKey t'.name := nameKey_eq_of_skeleton (hnames t ht) (hnames t' ht') he
  exact List.inj_on_of_nodup_map (nodup_nameKeys_of_read h) ht ht' hkey

theorem constants_of_read_crossed : (read gapPlace crossedText).Yields crossedTileset ∧
    Unambiguous crossedTileset.toTileset := by
  have hnames : ∀ t ∈ crossedTileset.tiles.values, ∀ c ∈ t.name.toList, Text.isNameChar c = true := by
    decide
  exact ⟨read_crossed, (constants_of_read read_crossed).2.2 hnames⟩

def hyphenText : String :=
  "TSET tileSize=2x2 bgColor=0 mc1Color=1 mc2Color=2
TILES
A_B chars=1,2,3,4 color=5
A-B chars=1,2,3,4 color=5
END
"

def hyphenTileset : LinkedTileset :=
  { name := "gap", declaredCount := 2, multicolor1 := 1, multicolor2 := 2
    tiles := [(0, ⟨0, "A_B", ⟨1, 2, 3, 4⟩, .single, ⟨5, 0, 0, 0⟩, 0⟩),
      (1, ⟨1, "A-B", ⟨1, 2, 3, 4⟩, .single, ⟨5, 0, 0, 0⟩, 0⟩)]
    names := [("A_B", 0), ("A-B", 1)] }

/-- Names with an underscore and with a hyphen are told apart, but their tiles share one constant. -/
theorem constant_shared : (read gapPlace hyphenText).Yields hyphenTileset ∧
    definitions (idsHeader hyphenTileset.toTileset) = [("TILE_A_B", "0"), ("TILE_A_B", "1")] ∧
    ¬Unambiguous hyphenTileset.toTileset := by
  have hsorted : hyphenTileset.sortedTiles = hyphenTileset.tiles.values := by
    rw [sortedTiles, List.mergeSort_of_pairwise (by decide)]
    rfl
  have hdefinitions : definitions (idsHeader hyphenTileset.toTileset) = [("TILE_A_B", "0"), ("TILE_A_B", "1")] := by
    rw [definitions_idsHeader, hsorted]
    decide
  refine ⟨by decide +kernel, hdefinitions, fun h => ?_⟩
  have hdistinct := h.distinct
  rw [hdefinitions] at hdistinct
  revert hdistinct
  decide

end EscapeRoom.Tileset
