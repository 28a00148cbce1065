import EscapeRoom.Proofs.TileKit.Steps

/-!
# Reading a kit's tileset

When the text of a kit's tileset is read without an issue, and what is read then. The lines are taken section by section:
each section goes on from what is known before it.
-/

namespace EscapeRoom.TileKit

open Tileset Report
open Listing (Legible Whole)

variable {tiles : List KitTile}

theorem forall₂_of_map_eq {α β γ : Type} {f : α → γ} {g : β → γ} {xs : List α} {ys : List β} (h : ys.map g = xs.map f) :
    List.Forall₂ (fun x y => g y = f x) xs ys := by
  induction xs generalizing ys with
  | nil => exact List.map_eq_nil_iff.mp h ▸ .nil
  | cons x xs ih =>
    obtain ⟨y, ys, rfl, hy, hys⟩ := List.map_eq_cons_iff.mp h
    exact .cons hy (ih hys)

theorem forall_split_iff {α : Type} {P : α → Prop} {xs : List α} :
    (∀ done x rest, xs = done ++ x :: rest → P x) ↔ ∀ x ∈ xs, P x := by
  constructor
  · intro h x hx
    obtain ⟨done, rest, rfl⟩ := List.append_of_mem hx
    exact h done x rest rfl
  · rintro h done x rest rfl
    exact h x (by simp)

variable {place : Surroundings} {texts texts' : List String} {o o' o'' : Outline} {cond cond' : Prop} {ts : Tileset}

/-- Lines with these texts lead from one outline to another, and have no issue exactly on a condition. -/
def Reads (place : Surroundings) (texts : List String) (o : Outline) (cond : Prop) (o' : Outline) : Prop :=
  ∀ (lines : List Line) p, lines.map Line.text = texts → outline p = o →
    (lines.foldlM (fun p line => readLine line fullDialect place p) p).Exact cond fun p => outline p = o'

namespace Reads

theorem append (h : Reads place texts o cond o') (h' : Reads place texts' o' cond' o'') :
    Reads place (texts ++ texts') o (cond ∧ cond') o'' := by
  intro lines p hl hp
  obtain ⟨first, second, rfl, hf, hs⟩ := List.map_eq_append_iff.mp hl
  exact (h first p hf hp).foldlM_append fun p hp => h' second p hs hp

theorem nil : Reads place [] o True o := by
  intro lines p hl hp
  obtain rfl := List.map_eq_nil_iff.mp hl
  exact .of_yields_iff (fun p' => by rw [List.foldlM_nil, yields_pure, true_and]) hp

theorem line {text : String} (h : ∀ line p, line.text = text → outline p = o →
    (readLine line fullDialect place p).Exact cond fun p => outline p = o') : Reads place [text] o cond o' := by
  intro lines p hl hp
  obtain ⟨line, rest, rfl, hli, hr⟩ := List.map_eq_cons_iff.mp hl
  exact ((h line p hli hp).foldlM_cons fun p hp => nil rest p hr hp).congr (iff_of_eq (and_true cond)) fun _ _ h => h

theorem congr (h : Reads place texts o cond o') (hc : cond ↔ cond') : Reads place texts o cond' o' :=
  fun lines p hl hp => (h lines p hl hp).congr hc fun _ _ h => h

theorem map {α : Type} {xs : List α} (f : α → String) (needs : List α → α → Prop) (after : List α → Outline)
    (h : ∀ done x line p, x ∈ xs → line.text = f x → outline p = after done →
      (readLine line fullDialect place p).Exact (needs done x) fun p => outline p = after (done ++ [x])) :
    Reads place (xs.map f) (after []) (∀ done x rest, xs = done ++ x :: rest → needs done x) (after xs) := by
  intro lines p hl hp
  exact exact_foldlM needs (fun done p => outline p = after done) (forall₂_of_map_eq hl) hp
    fun done x _ line p he hli hp => h done x line p (by simp [he]) hli hp

end Reads

/-! ### Sections -/

theorem reads_end : Reads place ["END"] o True { o with part := none } :=
  .line fun _ _ hl ho => exact_end ho hl

theorem reads_section {part : Part} {word : String} (hp : partNamed? word = some part) (hts : o.tileset = some ts) :
    Reads place [word] o True { o with part := some part } := by
  have hw : ∀ word ∈ sectionWords, IsTileName word ∧ word ≠ "END" := by
    simp only [sectionWords, List.forall_mem_cons, List.not_mem_nil, false_implies, implies_true, and_true]
    exact ⟨⟨⟨by decide, by decide⟩, by decide⟩, ⟨⟨by decide, by decide⟩, by decide⟩, ⟨by decide, by decide⟩, by decide⟩
  have hmem : word ∈ sectionWords := by
    by_contra hmem
    rw [partNamed?_eq_none.mpr hmem] at hp
    cases hp
  exact .line fun _ _ hl ho => exact_section hp (hw word hmem).1 (hw word hmem).2 ho hts hl

/-- Map characters for names, and the keys of the names. -/
def charmapOf (entries : List (Char × String)) : List (String × String) :=
  entries.map fun e => (String.singleton e.1, nameKey e.2)

theorem reads_entries {entries : List (Char × String)} (hc : ∀ e ∈ entries, e.1 ∈ mapChars)
    (hn : ∀ e ∈ entries, IsTileName e.2) (hts : o.tileset = some ts) (hpa : o.part = some .charmap)
    (hnil : o.charmap = []) : Reads place (entries.map fun e => entryText e.1 e.2) o (entries.map (·.1)).Nodup
      { o with charmap := charmapOf entries } := by
  have hen : Reads place (entries.map fun e => entryText e.1 e.2) _ _ _ := .map _ (fun done e => e.1 ∉ done.map (·.1))
    (fun done => { o with charmap := charmapOf done }) fun done e line p he hl hp => by
      refine (exact_entryText (hc e he) (hn e he) hp hpa hts hl).congr (not_congr ?_) fun _ p hp => ?_
      · simp only [charmapOf, List.map_map, List.mem_map, Function.comp_apply]
        simp
      · rw [hp]
        simp [charmapOf]
  rw [forall_not_mem_before_iff_nodup] at hen
  have ho : o = { o with charmap := charmapOf [] } := by
    rw [charmapOf, List.map_nil, ← hnil]
  rw [ho]
  exact hen

theorem reads_objects {objects : List (ObjectGroup × List String)} (hw : ∀ e ∈ objects, Whole e) (hwo : ∀ e ∈ objects, e.1.name ∉ sectionWords)
    (hts : o.tileset = some ts) (hpa : o.part = some .objects) (hnil : o.objects = []) :
    Reads place (objects.map fun e => Listing.objectText e.1 e.2) o (∀ e ∈ objects, e.1.name ∉ reservedWords)
      { o with objects := objects.map fun e => (Listing.objectText e.1 e.2, e.1.name) } := by
  have hob : Reads place (objects.map fun e => Listing.objectText e.1 e.2) _ _ _ :=
    .map _ (fun _ e => e.1.name ∉ reservedWords)
      (fun done => { o with objects := done.map fun e => (Listing.objectText e.1 e.2, e.1.name) })
      fun done e line p he hl hp => by
        refine (exact_objectText (hw e he) (hwo e he) hp hpa hts hl).congr .rfl fun _ p hp => ?_
        rw [hp, List.map_append, List.map_singleton]
  rw [forall_split_iff] at hob
  have ho : o = { o with objects := [] } := by
    rw [← hnil]
  rw [ho]
  exact hob

/-! ### Tiles -/

def numbered (c : Charset) (tiles : List KitTile) : Table Int Tile :=
  tiles.zipIdx.map fun e => ((e.2 : Int), tileOf c e.1 e.2)

/-- The keys by which the names of tiles are looked up. -/
def tileKeys (tiles : List KitTile) : List String :=
  tiles.map fun t => nameKey t.name

theorem tileKeys_eq (tiles : List KitTile) : tileKeys tiles = (tiles.map (·.name)).map nameKey := by
  simp [tileKeys]

/-- The numbers of the tiles by the keys of their names. -/
def keyed (tiles : List KitTile) : Table String Int :=
  tiles.zipIdx.map fun e => (nameKey e.1.name, (e.2 : Int))

theorem keys_keyed (tiles : List KitTile) : (keyed tiles).keys = tileKeys tiles := by
  conv_rhs => rw [tileKeys, ← List.zipIdx_map_fst 0 tiles, List.map_map]
  rw [keyed, Table.keys, List.map_map]
  simp only [Function.comp_def]

theorem keys_numbered (c : Charset) (tiles : List KitTile) :
    (numbered c tiles).keys = (List.range tiles.length).map fun n : Nat => (n : Int) := by
  rw [List.range_eq_range', ← List.zipIdx_map_snd 0 tiles, numbered, Table.keys, List.map_map, List.map_map]
  simp only [Function.comp_def]

theorem not_mem_keys_numbered (c : Charset) (tiles : List KitTile) : (tiles.length : Int) ∉ (numbered c tiles).keys := by
  rw [keys_numbered, List.mem_map]
  rintro ⟨n, hn, he⟩
  rw [List.mem_range] at hn
  omega

theorem numbered_concat (c : Charset) (tiles : List KitTile) (t : KitTile) :
    numbered c (tiles ++ [t]) = (numbered c tiles).put tiles.length (tileOf c t tiles.length) := by
  rw [Table.put_of_not_mem (not_mem_keys_numbered c tiles), numbered, List.zipIdx_append, List.map_append, numbered]
  simp

theorem keyed_concat {t : KitTile} (h : nameKey t.name ∉ tileKeys tiles) :
    keyed (tiles ++ [t]) = (keyed tiles).put (nameKey t.name) tiles.length := by
  rw [Table.put_of_not_mem (by rwa [keys_keyed]), keyed, List.zipIdx_append, List.map_append, keyed]
  simp

structure Numberable (tiles : List KitTile) : Prop where
  count : tiles.length ≤ 256
  words : ∀ t ∈ tiles, t.name ∉ ["TSET", "FLAGBITS"]
  flags : ∀ t ∈ tiles, ∀ name ∈ flagList t.flags, (flagBit? (Text.upper name)).isSome = true
  keys : (tileKeys tiles).Nodup

theorem numberable_iff : Numberable tiles ↔ ∀ done t rest, tiles = done ++ t :: rest →
    t.name ∉ ["TSET", "FLAGBITS"] ∧ done.length ≤ 255 ∧
      (∀ name ∈ flagList t.flags, (flagBit? (Text.upper name)).isSome = true) ∧ nameKey t.name ∉ tileKeys done := by
  constructor
  · rintro ⟨hc, hw, hf, hk⟩ done t rest rfl
    have ht : t ∈ done ++ t :: rest := by simp
    refine ⟨hw t ht, ?_, hf t ht, forall_not_mem_before_iff_nodup.mpr hk done t rest rfl⟩
    rw [List.length_append, List.length_cons] at hc
    omega
  · intro h
    refine ⟨?_, forall_split_iff.mp fun done t rest he => (h done t rest he).1,
      forall_split_iff.mp fun done t rest he => (h done t rest he).2.2.1,
      forall_not_mem_before_iff_nodup.mp fun done t rest he => (h done t rest he).2.2.2⟩
    rcases List.eq_nil_or_concat tiles with rfl | ⟨done, t, rfl⟩
    · simp
    · have hc := (h done t [] (by simp)).2.1
      rw [List.concat_eq_append, List.length_append, List.length_singleton]
      omega

theorem reads_tiles {c : Charset} (hti : ∀ t ∈ tiles, Legible c t)
    (hw : ∀ t ∈ tiles, t.name ∉ sectionWords) (hts : o.tileset = some ts) (hpa : o.part = some .tiles)
    (hnil : ts.tiles = []) (hn : o.names = []) (hid : o.nextId = 0) :
    Reads place (tiles.map (Listing.tileText c)) o (Numberable tiles)
      { o with
        tileset := some { ts with tiles := numbered c tiles }
        names := keyed tiles
        nextId := tiles.length } := by
  have hr : Reads place (tiles.map (Listing.tileText c)) _ _ _ :=
    .map _ (fun done t => t.name ∉ ["TSET", "FLAGBITS"] ∧ done.length ≤ 255 ∧
        (∀ name ∈ flagList t.flags, (flagBit? (Text.upper name)).isSome = true) ∧ nameKey t.name ∉ tileKeys done)
      (fun done => { o with
        tileset := some { ts with tiles := numbered c done }
        names := keyed done
        nextId := done.length })
      fun done t line p ht hl hp => by
        have hnew := not_mem_keys_numbered c done
        refine (exact_tileText (hti t ht) (hw t ht) hp hpa rfl hl).congr ?_ fun hc p hp => ?_
        · have hco : (0 ≤ (done.length : Int) ∧ (done.length : Int) ≤ 255) ↔ done.length ≤ 255 := by omega
          rw [keys_keyed, hco]
          simp [hnew]
        · rw [hp, numbered_concat, keyed_concat (keys_keyed done ▸ hc.2.2.2.1), List.length_append, List.length_singleton]
          rfl
  rw [← numberable_iff] at hr
  have ho : o = { o with
      tileset := some { ts with tiles := numbered c [] }
      names := keyed []
      nextId := ([] : List KitTile).length } := by
    cases o
    cases ts
    simp_all [numbered, keyed]
  conv => arg 3; rw [ho]
  exact hr

/-! ### The whole text -/

variable {l : Listing} {c : Charset} {s : SharedColors} {name charset : String}

/-- No tile and no object that has all its tiles is named like a section. -/
@[mk_iff]
structure Listing.Apart (l : Listing) : Prop where
  tiles : ∀ t ∈ l.tiles, t.name ∉ sectionWords
  objects : ∀ e ∈ l.wholeObjects, e.1.name ∉ sectionWords

instance (l : Listing) : Decidable l.Apart :=
  decidable_of_iff _ (Listing.apart_iff l).symm

def Listing.entries (l : Listing) : List (Char × String) :=
  (picks [] l.symbols).zip l.symbols

theorem Listing.fst_entries (l : Listing) : l.entries.map (·.1) = picks [] l.symbols :=
  List.map_fst_zip (by rw [length_picks])

theorem Listing.snd_entries (l : Listing) : l.entries.map (·.2) = l.symbols :=
  List.map_snd_zip (by rw [length_picks])

/-- What is known when map characters, objects and tiles are read. -/
def outlineOf (ts : Tileset) (c : Charset) (entries : List (Char × String)) (objects : List (ObjectGroup × List String))
    (tiles : List KitTile) : Outline where
  tileset := some { ts with tiles := numbered c tiles }
  names := keyed tiles
  part := none
  nextId := tiles.length
  charmap := charmapOf entries
  objects := objects.map fun e => (Listing.objectText e.1 e.2, e.1.name)

/-- The lines of a tileset can be read one after the other. -/
structure Listing.Readable (l : Listing) : Prop where
  chars : (picks [] l.symbols).Nodup
  objects : ∀ e ∈ l.wholeObjects, e.1.name ∉ reservedWords
  tiles : Numberable l.tiles

theorem Listing.isTileName_of_mem_symbols (hl : l.Sound) : ∀ name ∈ l.symbols, IsTileName name := by
  intro name hn
  simp only [symbols, List.mem_append, List.mem_map] at hn
  rcases hn with (⟨t, ht, rfl⟩ | ⟨t, ht, rfl⟩) | ⟨g, -, rfl⟩
  · exact (hl.plain t ht).name
  · exact (hl.aliases t ht).name
  · exact isTileName_groupName g

theorem reads_objectLines (hl : l.Sound) (hw : ∀ e ∈ l.wholeObjects, e.1.name ∉ sectionWords) (hts : o.tileset = some ts)
    (hp : o.part = none) (hnil : o.objects = []) :
    Reads place l.objectLines o (∀ e ∈ l.wholeObjects, e.1.name ∉ reservedWords)
      { o with objects := l.wholeObjects.map fun e => (Listing.objectText e.1 e.2, e.1.name) } := by
  rw [Listing.objectLines]
  split
  · rename_i hg
    have hn : l.wholeObjects = [] := by
      rw [Listing.wholeObjects, Listing.largeGroups, List.isEmpty_iff.mp hg]
      rfl
    rw [hn, List.map_nil, ← hnil]
    exact Reads.nil.congr (by simp)
  · have ho : Reads place _ { o with part := some .objects } _ _ :=
      reads_objects (fun e he => hl.whole he) hw hts rfl hnil
    have hs : Reads place ["OBJECTS"] o True { o with part := some .objects } := reads_section rfl hts
    have hall := hs.append (ho.append reads_end)
    rw [true_and, and_true] at hall
    rw [hp]
    exact hall

/-- What stands on the lines up to the end of the map characters. -/
def Listing.headLines (l : Listing) (name charset : String) (s : SharedColors) : List String :=
  [headerLine name charset s] ++ (["CHARMAP"] ++ ((l.entries.map fun e => entryText e.1 e.2) ++ ["END"]))

def Listing.tileLines (l : Listing) (c : Charset) : List String :=
  ["TILES"] ++ (l.tiles.map (Listing.tileText c) ++ (["END"] ++ ["END"]))

theorem Listing.lines_eq (l : Listing) (name charset : String) (s : SharedColors) (c : Charset) :
    l.lines name charset s c = l.headLines name charset s ++ (l.objectLines ++ l.tileLines c) := by
  have hzip := @List.map_uncurry_zip_eq_zipWith _ _ _ entryText (picks [] l.symbols) l.symbols
  rw [Listing.lines, ← hzip]
  simp [Listing.headLines, Listing.tileLines, Listing.entries, Function.uncurry_def]

theorem reads_headLines (hh : IsHeader name charset s) (hl : l.Sound) :
    Reads place (l.headLines name charset s) (outline {})
      (place.isFile (place.charsetPath charset) = true ∧ (picks [] l.symbols).Nodup)
      { outline {} with tileset := some (headerTileset name charset s), charmap := charmapOf l.entries } := by
  have hf : Reads place [headerLine name charset s] (outline {}) _ _ :=
    .line fun line p hli hp => exact_headerLine hh hp hli
  have hc : ∀ e ∈ l.entries, e.1 ∈ mapChars := fun e he => mem_mapChars_of_mem_picks (List.of_mem_zip he).1
  have hn : ∀ e ∈ l.entries, IsTileName e.2 := fun e he => Listing.isTileName_of_mem_symbols hl _ (List.of_mem_zip he).2
  have hch : partNamed? "CHARMAP" = some .charmap := rfl
  refine (hf.append (.append (reads_section hch rfl) (.append (reads_entries hc hn rfl rfl rfl)
    reads_end))).congr ?_
  rw [l.fst_entries, true_and, and_true]

theorem reads_tileLines (ht : ∀ t ∈ l.tiles, Legible c t) (hw : ∀ t ∈ l.tiles, t.name ∉ sectionWords)
    (hts : o.tileset = some ts) (hnil : ts.tiles = []) (hn : o.names = []) (hid : o.nextId = 0) :
    Reads place (l.tileLines c) o (Numberable l.tiles)
      { o with
        tileset := some { ts with tiles := numbered c l.tiles }
        names := keyed l.tiles
        nextId := l.tiles.length
        part := none } := by
  have hs : partNamed? "TILES" = some .tiles := rfl
  refine Reads.congr (.append (reads_section hs hts)
    (.append (reads_tiles ht hw hts rfl hnil hn hid) (.append reads_end reads_end))) ?_
  rw [true_and, and_true, and_true]

theorem reads_lines (hh : IsHeader name charset s) (hl : l.Sound) (ht : ∀ t ∈ l.tiles, Legible c t)
    (hw : l.Apart) :
    Reads place (l.lines name charset s c) (outline {}) (place.isFile (place.charsetPath charset) = true ∧ l.Readable)
      (outlineOf (headerTileset name charset s) c l.entries l.wholeObjects l.tiles) := by
  rw [l.lines_eq]
  refine ((reads_headLines hh hl).append (.append (reads_objectLines hl hw.objects rfl rfl rfl)
    (reads_tileLines ht hw.tiles rfl rfl rfl rfl))).congr ?_
  constructor
  · rintro ⟨⟨hf, hc⟩, ho, ht⟩
    exact ⟨hf, hc, ho, ht⟩
  · rintro ⟨hf, hc, ho, ht⟩
    exact ⟨⟨hf, hc⟩, ho, ht⟩

end EscapeRoom.TileKit
