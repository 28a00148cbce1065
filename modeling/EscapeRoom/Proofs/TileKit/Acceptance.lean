import EscapeRoom.Proofs.TileKit.Blank

/-!
# Which kits are accepted

The compiler does not check its kits. Descriptions become names, and different descriptions may become one name; there
are map characters for 71 names and numbers for 255 tiles; objects may lack tiles, or share their names. The tileset of
a kit is read without an issue exactly if none of this happens.
-/

namespace EscapeRoom.TileKitCompiler

open TileKit

/-- A run that comes to its end writes a kit. With flags that are known and the charset in its place the tileset is read
without an issue exactly if the kit is legal: provided that the texts of the specification have no line breaks, that the
names can stand in a header, and that nothing is named like a section. -/
theorem accepted_iff_of_run {words : List String} {s s' : Session} (hrun : (run words).Ends s () s') :
    ∃ (a : Arguments) (p : Places) (k : Kit), usage.read words = .ok a ∧ p = Places.of s.tree.rootPath a ∧
      k.MadeFrom s.tree p (a.isOn "--fast") ∧ (k.write p).Ends s () s' ∧
      (p.Plain s.tree → (∀ t ∈ k.listing.tiles, ∀ flag ∈ flagList t.flags, flag ∈ flagNames) → k.listing.Apart →
        ∀ place : Tileset.Surroundings, place.isFile (place.charsetPath p.charsetName) = true →
          ((∃ ts, (Tileset.read place (FileTree.normalized k.text)).Yields ts) ↔ k.listing.Legal)) := by
  obtain ⟨a, k, ha, hmade, hwrite⟩ := ends_run.mp hrun
  refine ⟨a, _, k, ha, rfl, hmade, hwrite, fun hplain hflags hapart place hfile => ?_⟩
  have hread := hmade.exact_read hplain (fun t ht => Listing.plainFlags_of_known (hflags t ht)) hapart place
  rw [hread.exists_iff]
  exact and_iff_right hfile

theorem accepted_iff_of_run_ladder : ∃ s' ts, (run ["k.json"]).Ends (desk ladderCells) () s' ∧
    ((deskKit ladderCells).write deskPlaces).Ends (desk ladderCells) () s' ∧ (deskKit ladderCells).listing.Legal ∧
    (Tileset.read deskSurroundings (FileTree.normalized (deskKit ladderCells).text)).Yields ts := by
  obtain ⟨s', hrun, -⟩ := exists_ends_desk compiles_ladderCells
  obtain ⟨a, _, k, ha, rfl, hmade, hwrite, haccepted⟩ := accepted_iff_of_run hrun
  obtain rfl := Except.ok.inj (read_desk.symm.trans ha)
  rw [places_desk] at hmade hwrite haccepted
  rw [isOn_desk] at hmade
  obtain rfl := (madeFrom_deskKit compiles_ladderCells).unique hmade
  obtain ⟨hlegal, hapart, hflags⟩ := listing_ladderCells
  obtain ⟨ts, hts⟩ := (haccepted (plain_desk (by decide)) hflags hapart deskSurroundings isFile_desk).mpr hlegal
  exact ⟨s', ts, hrun, hwrite, hlegal, hts⟩

/-- Two tiles of an empty picture whose descriptions become one name. -/
def twinCells : List PlainCell :=
  [⟨0, "wall a", ["solid"]⟩, ⟨1, "wall-a", ["solid"]⟩]

theorem compiles_twinCells : Compiles twinCells := by
  decide +kernel

theorem listing_twinCells : (deskKit twinCells).listing.tiles.map (·.name) = ["WALL_A", "WALL_A"] ∧
    (deskKit twinCells).listing.Apart ∧
    ∀ t ∈ (deskKit twinCells).listing.tiles, ∀ flag ∈ flagList t.flags, flag ∈ flagNames := by
  decide +kernel

/-- Two tiles with one name are written, but not read. -/
theorem not_accepted_twins : ∃ s', (run ["k.json"]).Ends (desk twinCells) () s' ∧
    (deskKit twinCells).MadeFrom (desk twinCells).tree deskPlaces false ∧
    ((deskKit twinCells).write deskPlaces).Ends (desk twinCells) () s' ∧
    deskPlaces.Plain (desk twinCells).tree ∧
    (∀ t ∈ (deskKit twinCells).listing.tiles, ∀ flag ∈ flagList t.flags, flag ∈ flagNames) ∧
    ∀ place ts, ¬(Tileset.read place (FileTree.normalized (deskKit twinCells).text)).Yields ts := by
  obtain ⟨s', hrun, hwrite⟩ := exists_ends_desk compiles_twinCells
  have hmade := madeFrom_deskKit compiles_twinCells
  have hplain : deskPlaces.Plain (desk twinCells).tree := plain_desk (by decide)
  obtain ⟨hnames, hapart, hflags⟩ := listing_twinCells
  refine ⟨s', hrun, hmade, hwrite, hplain, hflags, fun place ts hts => ?_⟩
  have hread := hmade.exact_read hplain (fun t ht => Listing.plainFlags_of_known (hflags t ht)) hapart place
  have hnodup := (hread.sound ts hts).1.2.names
  rw [tileKeys_eq, hnames] at hnodup
  exact absurd hnodup (by simp)

end EscapeRoom.TileKitCompiler
