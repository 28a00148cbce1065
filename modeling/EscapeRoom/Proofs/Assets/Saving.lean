import Mathlib.Data.List.Infix
import EscapeRoom.Proofs.Assets.Freshness
import EscapeRoom.Proofs.Assets.Inputs

/-!
# The saved cache

Saving the cache makes the directory `build` of a project, unless it is there, and writes one file in it.
The inputs stay what they are, and so do the outputs that are there. A cache that was saved can be saved
again.
-/

namespace EscapeRoom

namespace FileTree

variable {t t' : FileTree} {path directory pattern : String} {here place made : Place} {f : String → Bool}

theorem isDirectory_iff :
    t.isDirectory path = true ↔ ∃ place, t.locate path = .ok place ∧ t.isDirectoryAt place = true := by
  unfold isDirectory
  cases t.locate path with
  | error e => simp
  | ok place => simp

theorem Grows.isDirectory (h : t.Grows t') (hp : t.isDirectory path = true) : t'.isDirectory path = true := by
  obtain ⟨place, hpl, hd⟩ := isDirectory_iff.mp hp
  exact isDirectory_iff.mpr ⟨place, h.locate hpl, h.directories place hd⟩

def Keeps (t t' : FileTree) (path : String) : Prop :=
  ∃ place, t.locate path = .ok place ∧ t'.locate path = .ok place ∧ t'.fileAt? place = t.fileAt? place ∧
    (t.fileAt? place = none → t'.isDirectoryAt place = t.isDirectoryAt place)

theorem Keeps.modified (h : t.Keeps t' path) : t'.modified path = t.modified path := by
  obtain ⟨place, hp, hp', hf, hdi⟩ := h
  unfold FileTree.modified
  rw [hp, hp']
  dsimp only
  rw [hf]
  cases ht : t.fileAt? place with
  | some file => rfl
  | none => simp only [hdi ht]

theorem Keeps.text (h : t.Keeps t' path) : t'.text path = t.text path := by
  obtain ⟨place, hp, hp', hf, hdi⟩ := h
  unfold FileTree.text bytes
  rw [hp, hp']
  dsimp only
  rw [hf]
  cases ht : t.fileAt? place with
  | some file => rfl
  | none => simp only [hdi ht]

theorem glob_eq_nil (h : t.isDirectory directory = false) (pattern : String) : t.glob directory pattern = [] := by
  unfold isDirectory at h
  unfold glob
  cases hp : t.locate directory with
  | error e => rfl
  | ok place =>
    rw [hp] at h
    simp [h]

theorem Grows.glob_eq (h : t.Grows t') (hb : t'.isDirectory directory = true → t.isDirectory directory = true)
    (hp : Glob.isPattern pattern = true)
    (he : ∀ place, (t'.entries place).filter (Glob.matchName pattern) =
      (t.entries place).filter (Glob.matchName pattern)) : t'.glob directory pattern = t.glob directory pattern := by
  cases hd : t.isDirectory directory with
  | true =>
    obtain ⟨place, hpl, ht⟩ := isDirectory_iff.mp hd
    unfold glob
    rw [hpl, h.locate hpl]
    simp only [ht, h.directories place ht, hp, if_true, he]
  | false =>
    have hd' : t'.isDirectory directory = false := by
      rw [Bool.eq_false_iff]
      intro h'
      rw [hb h'] at hd
      cases hd
    rw [glob_eq_nil hd, glob_eq_nil hd']

theorem filter_filterMap_singleton {α : Type} {g : α → Option String} {x : α}
    (h : ∀ name, g x = some name → f name = false) : ([x].filterMap g).filter f = [] := by
  cases hx : g x with
  | none => simp [hx]
  | some name => simp [hx, h name hx]

theorem filter_entries_congr (hr : t'.root = t.root)
    (h : ∀ g : Place → Option String, (∀ p name, g p = some name → p.getLast? = some name) →
      ((t'.directories ++ t'.files.keys).filterMap g).filter f =
        ((t.directories ++ t.files.keys).filterMap g).filter f) (place : Place) :
    (t'.entries place).filter f = (t.entries place).filter f := by
  have hl : ∀ (p : Place) (name : String),
      (if p.dropLast = place && p.length = place.length + 1 then p.getLast? else none) = some name →
        p.getLast? = some name := by
    intro p name hp
    split at hp
    · exact hp
    · cases hp
  unfold entries
  simp only [hr]
  split
  · split
    · rw [List.filter_cons, List.filter_cons, h _ hl]
    · exact h _ hl
  · exact h _ hl

theorem filter_entries_addDirectory (hm : ∀ name, made.getLast? = some name → f name = false) (place : Place) :
    ((t.addDirectory made).entries place).filter f = (t.entries place).filter f := by
  apply filter_entries_congr (root_addDirectory t made)
  intro g hg
  unfold addDirectory
  split
  · rfl
  · have hn := filter_filterMap_singleton fun name hna => hm name (hg made name hna)
    simp only [List.filterMap_append, List.filter_append, hn, List.append_nil]

theorem filter_entries_putAt (hm : ∀ name, made.getLast? = some name → f name = false) (content : Content)
    (place : Place) : ((t.putAt made content).entries place).filter f = (t.entries place).filter f := by
  have hr : (t.putAt made content).root = t.root := rfl
  apply filter_entries_congr hr
  intro g hg
  rw [putAt, Table.keys_put]
  dsimp only
  split
  · rfl
  · have hn := filter_filterMap_singleton fun name hna => hm name (hg made name hna)
    simp only [List.filterMap_append, List.filter_append, hn, List.append_nil]

theorem walk_of_addDirectory {name : String} {names : List String} (hn : name ∉ names)
    (hh : ¬ (made ++ [name]) <+: here) (hw : (t.addDirectory (made ++ [name])).walk here names = .ok place)
    (hpl : (t.addDirectory (made ++ [name])).isDirectoryAt place = true) :
    t.walk here names = .ok place ∧ t.isDirectoryAt place = true := by
  have hs : ∀ {p : Place}, ¬ (made ++ [name]) <+: p →
      (t.addDirectory (made ++ [name])).isDirectoryAt p = t.isDirectoryAt p := by
    intro p hp
    have hne : p ≠ made ++ [name] := by
      rintro rfl
      exact hp (List.prefix_refl _)
    simp [isDirectoryAt_addDirectory, hne]
  induction names generalizing here with
  | nil =>
    obtain rfl := Except.ok.inj hw
    exact ⟨rfl, hs hh ▸ hpl⟩
  | cons n names ih =>
    rw [List.mem_cons, not_or] at hn
    rw [FileTree.walk, hs hh] at hw
    rw [FileTree.walk]
    split at hw
    · cases hw
    · rename_i hd
      rw [if_neg hd]
      split at hw
      · rename_i hup
        rw [if_pos hup]
        exact ih hn.2 (fun hp => hh (hp.trans (List.dropLast_prefix here))) hw
      · rename_i hup
        rw [if_neg hup]
        refine ih hn.2 (fun hp => ?_) hw
        rcases List.prefix_concat_iff.mp hp with heq | hp
        · exact hn.1 (by simpa using (List.append_inj' heq rfl).2)
        · exact hh hp

theorem isDirectory_of_addDirectory {name : String} (hn : name ∉ Path.components path)
    (h : (t.addDirectory (made ++ [name])).isDirectory path = true) : t.isDirectory path = true := by
  by_cases hm : t.isDirectoryAt (made ++ [name]) = true
  · rwa [addDirectory, if_pos hm] at h
  · obtain ⟨place, hl, hpl⟩ := isDirectory_iff.mp h
    have hw := walk_of_locate hl
    rw [(grows_addDirectory t (made ++ [name])).start] at hw
    have hs : ¬ (made ++ [name]) <+: t.start path := by
      intro hp
      unfold start at hp
      split at hp
      · simp at hp
      · apply hm
        rw [isDirectoryAt, List.isPrefixOf_iff_prefix.mpr hp, Bool.true_or]
    obtain ⟨hw, hpl⟩ := walk_of_addDirectory hn hs hw hpl
    exact isDirectory_iff.mpr ⟨place, locate_of_walk (ne_empty_of_locate hl) hw hpl, hpl⟩

end FileTree

namespace Assets

open EscapeRoom.Path FileTree

variable {s s' : Session} {t t' : FileTree} {l : Layout} {i : Input} {path : String} {cache : Json} {here place : Place}
  {u : Unit}

theorem ends_saveCache : (saveCache path cache).Ends s u s' ↔
    ∃ t t', s.tree.makeDirectories (parent path) = .ok t ∧ t.write path (.json 2 cache) = .ok t' ∧
      s' = { s with tree := t' } := by
  simp only [saveCache, Act.ends_bind, Act.ends_makeDirectories, Act.ends_write]
  constructor
  · rintro ⟨v, s₁, ⟨t, ht, rfl⟩, t', ht', rfl⟩
    exact ⟨t, t', ht, ht', rfl⟩
  · rintro ⟨t, t', ht, ht', rfl⟩
    exact ⟨(), _, ⟨t, ht, rfl⟩, t', ht', rfl⟩

theorem exists_saveCache_again (h : (saveCache path cache).Ends s u s') : ∃ place time,
    s'.tree.locate path = .ok place ∧ s'.tree.fileAt? place = some ⟨.json 2 cache, time⟩ ∧
      ∀ cache', (saveCache path cache').Ends s' () { s' with tree := s'.tree.putAt place (.json 2 cache') } := by
  obtain ⟨t, t', hm, hw, rfl⟩ := ends_saveCache.mp h
  obtain ⟨hne, hf, ht⟩ := makeDirectories_eq_ok.mp hm
  obtain ⟨place, hpl, hnew, hfi, hd, rfl⟩ := write_eq_ok.mp hw
  have hg : t.Grows (t.putAt place (.json 2 cache)) := grows_putAt t place _
  have hs : (t.putAt place (.json 2 cache)).start (parent path) = s.tree.start (parent path) := by
    rw [hg.start, ht, (grows_addEach _ _).start]
  have hdi : ∀ p ∈ trail (s.tree.start (parent path)) (components (parent path)),
      t.isDirectoryAt p = true := by
    intro p hp
    rw [ht, isDirectoryAt_addEach, decide_eq_true hp, Bool.or_true]
  refine ⟨place, t.clock, hg.locate hpl, by simp, fun cache' => ends_saveCache.mpr ?_⟩
  refine ⟨t.putAt place (.json 2 cache), _, makeDirectories_eq_ok.mpr ⟨hne, ?_, ?_⟩,
    write_eq_ok.mpr ⟨place, hg.locate hpl, hnew, ?_, hd, rfl⟩, rfl⟩
  · intro p hp
    rw [hs] at hp
    have ho : place ≠ p := by
      rintro rfl
      rw [hdi place hp] at hnew
      cases hnew
    rw [fileAt?_putAt, if_neg ho, ht, fileAt?_addEach]
    exact hf p hp
  · rw [hs]
    exact (addEach_eq_self fun p hp => hg.directories p (hdi p hp)).symm
  · have ho : place ≠ place.dropLast := by
      intro heq
      rw [← heq, hnew] at hd
      cases hd
    rw [fileAt?_putAt, if_neg ho, hfi]

theorem loadCache_eq {time : Nat} (hp : t.locate path = .ok place)
    (hf : t.fileAt? place = some ⟨.json 2 cache, time⟩) : loadCache t path = cache := by
  unfold loadCache json
  rw [hp]
  dsimp only
  rw [hf]

/-- The tree after the cache of the project at a place is saved. -/
def savedIn (t : FileTree) (here : Place) (cache : Json) : FileTree :=
  (t.addDirectory (here ++ ["build"])).putAt (here ++ ["build", ".asset_cache.json"]) (.json 2 cache)

theorem grows_savedIn (t : FileTree) (here : Place) (cache : Json) : t.Grows (savedIn t here cache) :=
  (grows_addDirectory t _).trans (grows_putAt _ _ _)

theorem components_cache (l : Layout) :
    components l.cache = components l.root ++ ["build", ".asset_cache.json"] := by
  have hn : components "build/.asset_cache.json" = ["build", ".asset_cache.json"] := by decide
  rw [Layout.cache, components_join (by decide), hn]

theorem start_cache (l : Layout) (t : FileTree) : t.start l.cache = t.start l.root := by
  rw [FileTree.start, Layout.cache, isAbsolute_join_of_relative _ (by decide), FileTree.start]

theorem place_of_cache (hr : t.locate l.root = .ok here) (hp : t.locate l.cache = .ok place) :
    place = here ++ ["build", ".asset_cache.json"] := by
  have hw := walk_of_locate hp
  rw [start_cache, components_cache, walk_append, walk_of_locate hr] at hw
  exact eq_append_of_walk hw (by decide)

theorem tree_of_saveCache (hr : s.tree.locate l.root = .ok here) (hd : s.tree.isDirectoryAt here = true)
    (h : (saveCache l.cache cache).Ends s u s') : s'.tree = savedIn s.tree here cache := by
  obtain ⟨t, t', hm, hwr, rfl⟩ := ends_saveCache.mp h
  have hw := walk_of_locate hr
  have ht : t = s.tree.addDirectory (here ++ ["build"]) := by
    have hs : s.tree.start (parent l.cache) = s.tree.start l.root := by
      rw [FileTree.start, isAbsolute_parent, ← FileTree.start, start_cache]
    have hc : components (parent l.cache) = components l.root ++ ["build"] := by
      rw [components_parent, components_cache]
      simp
    have hnew : trail here ["build"] = [here ++ ["build"]] := by simp [trail]
    rw [(makeDirectories_eq_ok.mp hm).2.2, hs, hc, trail_append hw, addEach_append,
      addEach_eq_self (isDirectoryAt_of_mem_trail hw hd), hnew]
    rfl
  obtain ⟨place, hp, -, -, -, rfl⟩ := write_eq_ok.mp hwr
  have hg : s.tree.Grows t := ht ▸ grows_addDirectory s.tree _
  rw [place_of_cache (hg.locate hr) hp, ht, savedIn]

/-- The project is there, and a directory of inputs that is missing is not on a way through the directory of
the cache, which would appear with it. -/
structure Layout.Stands (l : Layout) (t : FileTree) : Prop where
  root : t.isDirectory l.root = true
  tilesets : t.isDirectory l.tilesets = true ∨ "build" ∉ components l.tilesets
  levels : t.isDirectory l.levels = true ∨ "build" ∉ components l.levels

theorem Layout.Stands.grows (h : l.Stands t) (hg : t.Grows t') : l.Stands t' :=
  ⟨hg.isDirectory h.root, h.tilesets.imp_left hg.isDirectory, h.levels.imp_left hg.isDirectory⟩

theorem glob_savedIn {directory pattern : String}
    (hdi : t.isDirectory directory = true ∨ "build" ∉ components directory)
    (hn : ∀ name ∈ ["build", ".asset_cache.json"], Glob.matchName pattern name = false)
    (hp : Glob.isPattern pattern = true) :
    (savedIn t here cache).glob directory pattern = t.glob directory pattern := by
  apply (grows_savedIn t here cache).glob_eq _ hp
  · intro place
    rw [savedIn, filter_entries_putAt, filter_entries_addDirectory]
    · simp [hn]
    · simp [hn]
  · intro h
    rcases hdi with hdi | hb
    · exact hdi
    · have hg : (savedIn t here cache).Grows (t.addDirectory (here ++ ["build"])) := ⟨rfl, fun _ h => h⟩
      exact isDirectory_of_addDirectory hb (hg.isDirectory h)

theorem HasTime.exists_place (h : HasTime t path) : ∃ place, t.locate path = .ok place ∧
    (t.fileAt? place = none → t.isDirectoryAt place = true) := by
  obtain ⟨time, ht, hz⟩ := h
  have hn : (.ok (Number.Double.ofInt 0) : Except Crash Number.Double) ≠ .ok time := by
    intro h
    rw [← Except.ok.inj h] at hz
    exact absurd hz (by decide)
  unfold timeOf modified at ht
  cases hp : t.locate path with
  | error e =>
    rw [hp] at ht
    cases e with
    | missing => exact (hn ht).elim
    | _ => cases ht
  | ok place =>
    rw [hp] at ht
    refine ⟨place, rfl, fun hno => ?_⟩
    dsimp only at ht
    rw [hno] at ht
    cases hd : t.isDirectoryAt place with
    | true => rfl
    | false =>
      rw [hd] at ht
      exact (hn ht).elim

theorem keeps_savedIn (h : HasTime t path)
    (ho : ∀ place, t.locate path = .ok place → place ≠ here ++ ["build", ".asset_cache.json"]) :
    t.Keeps (savedIn t here cache) path := by
  obtain ⟨place, hp, ht⟩ := h.exists_place
  have hg := grows_savedIn t here cache
  refine ⟨place, hp, hg.locate hp, ?_, fun hn => ?_⟩
  · rw [savedIn, fileAt?_putAt, if_neg (Ne.symm (ho place hp))]
    exact fileAt?_addEach t [here ++ ["build"]] place
  · rw [ht hn, hg.directories place (ht hn)]

theorem timeOf_congr (h : t.Keeps t' path) : timeOf t' path = timeOf t path := by
  rw [timeOf, h.modified, timeOf]

theorem Input.outputs_congr (l : Layout) (h : t'.text i.path = t.text i.path) : i.outputs l t' = i.outputs l t := by
  cases i with
  | tileset path =>
    have h : t'.text path = t.text path := h
    simp only [Input.outputs, tilesetOutputs, namesCharset, h]
  | level path =>
    have h : t'.text path = t.text path := h
    simp only [Input.outputs, levelOutputs, levelName, h]

theorem place_ne_of_mem_inputs (hi : i ∈ inputs l t) (hp : t.locate i.path = .ok place) :
    place ≠ here ++ ["build", ".asset_cache.json"] := by
  obtain ⟨front, name, rfl, c, hc, hn⟩ := exists_place_of_mem_inputs hi hp
  intro heq
  have heq : front ++ [name] = (here ++ ["build"]) ++ [".asset_cache.json"] := by simpa using heq
  obtain rfl : name = ".asset_cache.json" := by simpa using (List.append_inj' heq rfl).2
  obtain rfl : 'n' = c := Option.some.inj hn
  simp at hc

theorem place_ne_of_mem_outputs {p : String} (hp : p ∈ i.outputs l t) (hr : t.locate l.root = .ok here)
    (hpl : t.locate p = .ok place) : place ≠ here ++ ["build", ".asset_cache.json"] := by
  obtain ⟨directory, name, rfl, hdi, -⟩ := exists_place_of_mem_outputs hp hr hpl
  intro heq
  have heq : directory ++ [name] = ["build"] ++ [".asset_cache.json"] := List.append_cancel_left heq
  exact hdi (List.append_inj' heq rfl).1

theorem sameInputs_of_saveCache (hl : l.Stands s.tree) (hin : ∀ i ∈ inputs l s.tree, HasTime s.tree i.path)
    (h : (saveCache l.cache cache).Ends s u s') : SameInputs l s.tree s'.tree ∧
      ∀ i ∈ inputs l s.tree, ∀ p ∈ i.outputs l s.tree, HasTime s.tree p → timeOf s'.tree p = timeOf s.tree p := by
  obtain ⟨here, hr, hd⟩ := isDirectory_iff.mp hl.root
  rw [tree_of_saveCache hr hd h]
  have hk : ∀ i ∈ inputs l s.tree, s.tree.Keeps (savedIn s.tree here cache) i.path := by
    intro i hi
    exact keeps_savedIn (hin i hi) fun place hpl => place_ne_of_mem_inputs hi hpl
  refine ⟨⟨?_, ?_, fun i hi => timeOf_congr (hk i hi), fun i hi => i.outputs_congr l (hk i hi).text⟩, ?_⟩
  · rw [tilesetsOf, glob_savedIn hl.tilesets (by decide +kernel) (by decide), tilesetsOf]
  · rw [levelsOf, glob_savedIn hl.levels (by decide +kernel) (by decide), levelsOf]
  · intro i hi p hp ht
    exact timeOf_congr (keeps_savedIn ht fun place hpl => place_ne_of_mem_outputs hp hr hpl)

end Assets

end EscapeRoom
