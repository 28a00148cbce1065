import EscapeRoom.Proofs.Assets.Pauses
import EscapeRoom.Proofs.Assets.Prediction
import EscapeRoom.Proofs.Assets.Updates

/-!
# Compilers of inputs

If the outputs of an input are predicted as its compiler makes them, all that the compiler writes is among
them, however it ends. The outputs of an input are told apart by their places, so that the blob of a level is
what was compiled when its compiler has ended well.
-/

namespace EscapeRoom

namespace Assets

open EscapeRoom.Path FileTree

variable {kind : String × String}

theorem IsKind.apart {others : Place → Prop} {root name : String} (h : IsKind kind) (hn : '/' ∉ name.toList)
    (ho : ∀ place, others place → place.IsInput) :
    Apart others root (join root (kind.1 ++ "/" ++ name ++ kind.2)) := by
  intro t place hr hp
  obtain ⟨here, hh, -⟩ := isDirectory_iff.mp hr
  obtain ⟨c, hc, hl⟩ := h.exists_letter name
  have hc' : c ∉ ['t', 'l'] := fun hmem => hc (List.mem_cons_of_mem _ hmem)
  have hp : place.getLast? = some (name ++ kind.2) := by
    rw [h.place_eq hn hh hp, ← List.append_assoc, List.getLast?_concat]
  refine ⟨fun hot => ?_, ?_⟩
  · obtain ⟨name', hn', d, hd, hl'⟩ := ho place hot
    rw [← Option.some.inj (hp.symm.trans hn'), hl] at hl'
    exact hc' (Option.some.inj hl' ▸ hd)
  · intro name' hn'
    rw [← Option.some.inj (hp.symm.trans hn')]
    exact isInputName_eq_false hl hc'

theorem IsDirectory.isBelow {directory : String} (h : IsDirectory directory)
    (hn : ∀ name ∈ components directory, isInputName name = false) (root : String) :
    IsBelow root (join root directory) :=
  ⟨isAbsolute_join_of_relative root h.relative,
    components directory, components_join h.relative, h.descending, hn⟩

theorem IsKind.directory_join {name : String} (h : IsKind kind) (hn : '/' ∉ name.toList)
    (root : String) : isAbsolute (Path.directory (join root (kind.1 ++ "/" ++ name ++ kind.2))) = isAbsolute root ∧
      components (Path.directory (join root (kind.1 ++ "/" ++ name ++ kind.2))) =
        components root ++ components kind.1 := by
  have hs : '/' ∉ (name ++ kind.2).toList := by
    rw [String.toList_append, List.mem_append, not_or]
    exact ⟨hn, h.ending⟩
  have hp : join root (kind.1 ++ "/" ++ name ++ kind.2) = join root kind.1 ++ "/" ++ (name ++ kind.2) := by
    rw [h.directory.join_eq, join_of_relative h.directory.relative]
    simp only [String.append_assoc]
  obtain ⟨hc, ha⟩ := directory_spec (a := join root kind.1) hs
  have hne : join root kind.1 ≠ "" := by
    intro he
    obtain ⟨front, hf⟩ := suffix_join root kind.1
    rw [he, String.toList_empty, List.append_eq_nil_iff] at hf
    exact h.directory.nonempty (String.toList_injective hf.2)
  rw [hp]
  refine ⟨?_, hc.trans (components_join h.directory.relative)⟩
  rw [ha, isAbsolute_append hne, isAbsolute_join_of_relative root h.directory.relative]

theorem IsKind.isBelow {root name : String} (h : IsKind kind)
    (hn : ∀ name ∈ components kind.1, isInputName name = false) (hna : '/' ∉ name.toList) :
    IsBelow root (Path.directory (join root (kind.1 ++ "/" ++ name ++ kind.2))) := by
  obtain ⟨ha, hc⟩ := h.directory_join hna root
  exact ⟨ha, components kind.1, hc, h.directory.descending, hn⟩

variable {others : Place → Prop} {pause : Nat → Act Unit} {s : Session} {path blob : String}

theorem read_level (h : isAbsolute path = true) :
    LevelCompiler.usage.read [path] = .ok { argument := some path } := by
  obtain ⟨hda, hp⟩ := LevelCompiler.usage.classify_of_isAbsolute h
  simp only [Usage.read, Usage.classifyAll, if_neg hda, hp]
  rfl

theorem read_tileset (h : isAbsolute path = true) (hb : isAbsolute blob = true) :
    TilesetCompiler.usage.read [path, "-o", blob] =
      .ok { argument := some path, values := [("--output", blob)] } := by
  obtain ⟨hda, hp⟩ := TilesetCompiler.usage.classify_of_isAbsolute h
  obtain ⟨hd', hp'⟩ := TilesetCompiler.usage.classify_of_isAbsolute hb
  simp only [Usage.read, Usage.classifyAll, if_neg hda, if_neg hd', hp, hp']
  rfl

/-- The level compiler stops at its input, or the input is compiled and its outputs are made. -/
theorem level_cases (hp : isAbsolute path = true) (root : String) (hr : s.tree.isDirectory root = true) :
    (s.tree.Adds others [] ((LevelCompiler.runPausing pause [path]).outcome s).2.tree ∧
      ∃ e, ((LevelCompiler.runPausing pause [path]).outcome s).1 = .error e ∧ e ≠ .exit 0) ∨
    ∃ c, LevelCompiler.compileFile s.tree path = (.ok (some c), []) ∧
      (LevelCompiler.runPausing pause [path]).outcome s = (LevelCompiler.makePausing pause
        (LevelCompiler.Directories.of s.tree.rootPath { argument := some path })
        (LevelCompiler.Outputs.of s.tree.rootPath { argument := some path }
          (LevelCompiler.Directories.of s.tree.rootPath { argument := some path }) c.level.name) c).outcome s := by
  rw [LevelCompiler.runPausing, Act.outcome_bind_of_ends (Act.ends_arguments.mpr ⟨read_level hp, rfl⟩)]
  dsimp only [Option.getD_some]
  obtain ⟨ha, hc, -⟩ := @LevelCompiler.builds_readInput others root path s hr
  rcases h : (LevelCompiler.readInput path).outcome s with ⟨e | c, s'⟩
  · rw [h] at ha hc
    rw [Act.outcome_bind_of_error h]
    exact .inl ⟨ha, e, rfl, fun he => hc (congrArg _ he)⟩
  · obtain ⟨hco, rfl⟩ := LevelCompiler.compileFile_of_readInput h
    refine .inr ⟨c, hco, ?_⟩
    rw [Act.outcome_bind_of_ends h, Act.outcome_bind_of_ends (Act.ends_root.mpr ⟨rfl, rfl⟩)]

/-- The tileset compiler stops at its input, or the input is read and its outputs are made. -/
theorem tileset_cases (hp : isAbsolute path = true) (hb : isAbsolute blob = true) (root : String)
    (hr : s.tree.isDirectory root = true) :
    (s.tree.Adds others [] ((TilesetCompiler.runPausing pause [path, "-o", blob]).outcome s).2.tree ∧
      ∃ e, ((TilesetCompiler.runPausing pause [path, "-o", blob]).outcome s).1 = .error e ∧ e ≠ .exit 0) ∨
    ∃ source ts, s.tree.linewiseText path = .ok source ∧ (Tileset.read ⟨path, s.tree.isFile⟩ source).Yields ts ∧
      (TilesetCompiler.runPausing pause [path, "-o", blob]).outcome s =
        (TilesetCompiler.makePausing pause path ts (TilesetCompiler.Outputs.of s.tree.rootPath
          { argument := some path, values := [("--output", blob)] } ts.toTileset)).outcome s := by
  rw [TilesetCompiler.runPausing,
    Act.outcome_bind_of_ends (Act.ends_arguments.mpr ⟨read_tileset hp hb, rfl⟩)]
  dsimp only [Option.getD_some]
  obtain ⟨ha, hc, -⟩ := @TilesetCompiler.builds_readInput others root path s hr
  rcases h : (TilesetCompiler.readInput path).outcome s with ⟨e | ts, s'⟩
  · rw [h] at ha hc
    rw [Act.outcome_bind_of_error h]
    exact .inl ⟨ha, e, rfl, fun he => hc (congrArg _ he)⟩
  · obtain ⟨⟨source, hs, hre⟩, rfl⟩ := TilesetCompiler.read_of_readInput h
    refine .inr ⟨source, ts, hs, hre, ?_⟩
    rw [Act.outcome_bind_of_ends h, Act.outcome_bind_of_ends (Act.ends_root.mpr ⟨rfl, rfl⟩)]

/-- The compiler of an input, with pauses after the input is read. -/
def Input.commandPausing (pause : Nat → Act Unit) : Input → List String → Act Unit
  | .tileset _ => TilesetCompiler.runPausing pause
  | .level _ => LevelCompiler.runPausing pause

theorem Input.commandPausing_pure (i : Input) : i.commandPausing (fun _ => pure ()) = i.command := by
  cases i with
  | tileset path => exact funext TilesetCompiler.runPausing_pure
  | level path => exact funext LevelCompiler.runPausing_pure

/-- The outputs that are predicted for an input are those that its compiler makes of it. -/
def Input.Named (t : FileTree) : Input → Prop
  | .tileset path => ∀ source ts, t.linewiseText path = .ok source →
    (Tileset.read ⟨path, t.isFile⟩ source).Yields ts →
      ts.name = stem path ∧ (!ts.charset.isEmpty) = namesCharset t path
  | .level path => ∀ c, LevelCompiler.compileFile t path = (.ok (some c), []) →
    levelBase (levelName t path) = Level.fileBase c.level.name

theorem isInputName_of_kind : ∀ kind ∈ tilesetKinds true ++ levelKinds, ∀ name ∈ components kind.1,
    FileTree.isInputName name = false := by
  decide +kernel

theorem tilesetKinds_subset (withCharset : Bool) : tilesetKinds withCharset ⊆ tilesetKinds true := by
  cases withCharset with
  | true => exact List.Subset.refl _
  | false => exact List.subset_append_left _ _

section Outputs

variable {root base : String}

theorem apart_of_mem_levelPaths (hb : '/' ∉ base.toList) (ho : ∀ place, others place → place.IsInput) :
    ∀ p ∈ pathsOf root base levelKinds, FileTree.Apart others root p := by
  intro p hp
  obtain ⟨kind, hk, rfl⟩ := List.mem_map.mp hp
  exact (isKind_of_mem_levelKinds kind hk).apart hb ho

theorem apart_of_mem_tilesetPaths {withCharset : Bool} (hb : '/' ∉ base.toList)
    (ho : ∀ place, others place → place.IsInput) :
    ∀ p ∈ pathsOf root base (tilesetKinds withCharset), FileTree.Apart others root p := by
  intro p hp
  obtain ⟨kind, hk, rfl⟩ := List.mem_map.mp hp
  exact (isKind_of_mem_tilesetKinds kind hk).apart hb ho

theorem isBelow_of_mem_tilesetPaths {withCharset : Bool} (hb : '/' ∉ base.toList) :
    ∀ p ∈ pathsOf root base (tilesetKinds withCharset), FileTree.IsBelow root (Path.directory p) := by
  intro p hp
  obtain ⟨kind, hk, rfl⟩ := List.mem_map.mp hp
  refine (isKind_of_mem_tilesetKinds kind hk).isBelow (isInputName_of_kind kind ?_) hb
  exact List.mem_append_left _ (tilesetKinds_subset withCharset hk)

theorem isBelow_directories (root path : String) {d : LevelCompiler.Directories}
    (hd : d = LevelCompiler.Directories.of root { argument := some path }) :
    ∀ p ∈ [d.assets, d.sources, d.headers, d.analysis], FileTree.IsBelow root p := by
  have hdi : ∀ kind ∈ levelKinds, FileTree.IsBelow root (join root kind.1) := by
    intro kind hk
    exact (isKind_of_mem_levelKinds kind hk).directory.isBelow
      (isInputName_of_kind kind (List.mem_append_right _ hk)) root
  subst hd
  simp only [levelKinds, List.forall_mem_cons] at hdi
  obtain ⟨hassets, hheaders, -, hsources, hanalysis, -⟩ := hdi
  simp only [LevelCompiler.Directories.of, value_of_no_values, List.forall_mem_cons]
  exact ⟨hassets, hsources, hheaders, hanalysis, List.forall_mem_nil _⟩

end Outputs

section Compilers

variable {i : Input} {l : Layout}

theorem level_make (hr : l.root = s.tree.rootPath) (hn : (Input.level path).Named s.tree)
    {c : Level.Compiled} (hc : LevelCompiler.compileFile s.tree path = (.ok (some c), []))
    {d : LevelCompiler.Directories} {o : LevelCompiler.Outputs}
    (hdi : d = LevelCompiler.Directories.of s.tree.rootPath { argument := some path })
    (ho : o = LevelCompiler.Outputs.of s.tree.rootPath { argument := some path } d c.level.name) :
    o.format = "" ∧ (∀ p ∈ [d.assets, d.sources, d.headers, d.analysis], FileTree.IsBelow l.root p) ∧
      [o.blob, o.ids, o.blobHeader, o.blobSource, o.summary, o.symbols] = levelOutputs s.tree l.root path := by
  obtain ⟨hf, hou⟩ := outputs_level s.tree.isAbsolute_rootPath path c.level.name (hdi ▸ ho)
  refine ⟨hf, ?_, ?_⟩
  · rw [hr]
    exact isBelow_directories _ path hdi
  · rw [hou, levelOutputs, hn c hc, hr]

def tilesetBlob (root path : String) : String :=
  join root ("gen/assets" ++ "/" ++ stem path ++ ".bin")

theorem words_tileset (l : Layout) (t : FileTree) (path : String) :
    (Input.tileset path).words l t = [path, "-o", tilesetBlob l.root path] := by
  simp only [Input.words, tilesetOutputs, pathsOf, tilesetKinds, List.cons_append, List.map_cons, List.head?_cons,
    Option.getD_some, tilesetBlob]

theorem isAbsolute_tilesetBlob {root : String} (hr : isAbsolute root = true) (path : String) :
    isAbsolute (tilesetBlob root path) = true :=
  isAbsolute_join hr _

/-- What the tileset compiler does with a tileset whose outputs are predicted. -/
theorem tileset_make (hr : l.root = s.tree.rootPath) (hn : (Input.tileset path).Named s.tree) {source : String}
    {ts : LinkedTileset} (hs : s.tree.linewiseText path = .ok source)
    (hre : (Tileset.read ⟨path, s.tree.isFile⟩ source).Yields ts) {o : TilesetCompiler.Outputs}
    (ho : o = TilesetCompiler.Outputs.of s.tree.rootPath
      { argument := some path, values := [("--output", tilesetBlob l.root path)] } ts.toTileset) :
    o.listing.isEmpty = false ∧ o.summary.isEmpty = false ∧
      [o.blob, o.ids, o.blobHeader, o.blobSource] ++ ([o.listing, o.summary] ++
        if ts.charset.isEmpty then [] else [o.charsetHeader, o.charsetSource]) =
          tilesetOutputs s.tree l.root path := by
  obtain ⟨hna, hc⟩ := hn source ts hs hre
  have hb := isAbsolute_tilesetBlob (hr ▸ s.tree.isAbsolute_rootPath) path
  obtain ⟨hl, hsu, hou⟩ :=
    outputs_tileset s.tree.isAbsolute_rootPath hb path ts.toTileset ho
  rw [hna, hc, ← hr, tilesetBlob, writtenTileset_eq (slash_not_mem_stem path)] at hou
  exact ⟨hl, hsu, hou⟩

theorem mem_of_mem_made (root path : String) (ts : Tileset) {o : TilesetCompiler.Outputs}
    (ho : o = TilesetCompiler.Outputs.of root { argument := some path, values := [("--output", blob)] } ts) :
    ∀ p ∈ o.made, p ∈ [o.blob, o.ids, o.blobHeader, o.blobSource] ++
      ([o.listing, o.summary] ++ if ts.charset.isEmpty then [] else [o.charsetHeader, o.charsetSource]) := by
  have hcharset : ts.charset.isEmpty = true → o.charsetHeader = "" ∧ o.charsetSource = "" := by
    intro h
    subst ho
    simp (disch := decide) only [TilesetCompiler.Outputs.of, value_of_ne_output, h]
    exact ⟨rfl, rfl⟩
  intro p hp
  rw [TilesetCompiler.Outputs.made, List.mem_filter] at hp
  obtain ⟨hp, hne⟩ := hp
  cases h : ts.charset.isEmpty with
  | true =>
    obtain ⟨hheader, hsource⟩ := hcharset h
    simp only [hheader, hsource, List.mem_cons, List.not_mem_nil, or_false] at hp
    have hne : p ≠ "" := by simpa using hne
    simp only [if_true, List.append_nil, List.cons_append, List.nil_append, List.mem_cons, List.not_mem_nil, or_false]
    tauto
  | false =>
    simp only [List.mem_cons, List.not_mem_nil, or_false] at hp
    simp only [Bool.false_eq_true, if_false, List.cons_append, List.nil_append, List.mem_cons, List.not_mem_nil,
      or_false]
    tauto

theorem perm_outputs (o : LevelCompiler.Outputs) :
    [o.blob, o.ids, o.summary, o.symbols, o.blobHeader, o.blobSource].Perm
      [o.blob, o.ids, o.blobHeader, o.blobSource, o.summary, o.symbols] :=
  List.Perm.append_left [o.blob, o.ids] (@List.perm_append_comm _ [o.summary, o.symbols] _)

theorem apart_of_mem_levelOutputs (ho : ∀ place, others place → place.IsInput) (t : FileTree) :
    ∀ p ∈ levelOutputs t l.root path, FileTree.Apart others l.root p :=
  apart_of_mem_levelPaths (slash_not_mem_levelBase _) ho

/-- What is known of a compiler from how it ends: it has at most written the outputs, and if it ends well, it has
written all of them. -/
structure Built (others : Place → Prop) (outputs : List String) (s : Session)
    (r : Except Ending Unit × Session) : Prop where
  adds : s.tree.Adds others outputs r.2.tree
  code : Act.exitCode r.1 = 0 → r.1 = .ok ()
  made : r.1 = .ok () → ∀ p ∈ outputs, r.2.tree.HasSince others s.tree.clock p

theorem built_of_stopped {outputs : List String} {r : Except Ending Unit × Session} {e : Ending}
    (ha : s.tree.Adds others [] r.2.tree) (he : r.1 = .error e) (hc : e ≠ .exit 0) :
    Built others outputs s r := by
  refine ⟨ha.mono (List.nil_subset _), fun h => ?_, fun h => ?_⟩
  · rw [he] at h
    cases e with
    | exit code => exact absurd (congrArg Ending.exit h) hc
    | crash c => cases h
  · rw [he] at h
    cases h

theorem built_of_builds {m : Act Unit} {root : String} {outputs : List String} (h : m.Builds others root outputs)
    (hro : s.tree.isDirectory root = true) : Built others outputs s (m.outcome s) := by
  obtain ⟨ha, hc, hm⟩ := h s hro
  refine ⟨ha, fun h => ?_, fun h => ?_⟩
  · rcases hr : (m.outcome s).1 with e | u
    · rw [hr] at h hc
      cases e with
      | exit code =>
        obtain rfl : code = 0 := h
        exact absurd rfl hc
      | crash c => cases h
    · rfl
  · exact hm () _ (Act.ends_outcome h)

/-- However a compiler ends, it has at most written the predicted outputs of its input. -/
theorem Input.built (hr : l.root = s.tree.rootPath) (hd : s.tree.isDirectory l.root = true)
    (hpa : isAbsolute i.path = true) (hn : i.Named s.tree) (hot : ∀ place, others place → place.IsInput)
    (hps : ∀ n, (pause n).Builds others l.root []) :
    Built others (i.outputs l s.tree) s ((i.commandPausing pause (i.words l s.tree)).outcome s) := by
  cases i with
  | level path =>
    have hpa : isAbsolute path = true := hpa
    simp only [Input.commandPausing, Input.words, Input.outputs]
    rcases @level_cases others pause s path hpa l.root hd with
      ⟨ha, e, he, hc⟩ | ⟨c, hco, hm⟩
    · exact built_of_stopped ha he hc
    · rw [hm]
      generalize hdi : LevelCompiler.Directories.of s.tree.rootPath { argument := some path } = d
      generalize ho : LevelCompiler.Outputs.of s.tree.rootPath { argument := some path } d c.level.name = o
      obtain ⟨hf, hb, hou⟩ := level_make hr hn hco hdi.symm ho.symm
      have hap := @apart_of_mem_levelOutputs others path l hot s.tree
      rw [← hou] at hap ⊢
      have hpe := perm_outputs o
      exact built_of_builds ((LevelCompiler.builds_makePausing hps c hf hb
        fun p hp => hap p (hpe.mem_iff.mp hp)).perm hpe) hd
  | tileset path =>
    have hpa : isAbsolute path = true := hpa
    have hbl := isAbsolute_tilesetBlob (hr ▸ s.tree.isAbsolute_rootPath) path
    simp only [Input.commandPausing, words_tileset, Input.outputs]
    rcases @tileset_cases others pause s path _ hpa hbl l.root hd with
      ⟨ha, e, he, hc⟩ | ⟨source, ts, hs, hre, hm⟩
    · exact built_of_stopped ha he hc
    · rw [hm]
      generalize ho : TilesetCompiler.Outputs.of s.tree.rootPath _ ts.toTileset = o
      obtain ⟨hl, hsu, hpt⟩ := tileset_make hr hn hs hre ho.symm
      have hap : ∀ p ∈ tilesetOutputs s.tree l.root path, FileTree.Apart others l.root p :=
        apart_of_mem_tilesetPaths (slash_not_mem_stem path) hot
      have hb : ∀ p ∈ tilesetOutputs s.tree l.root path, FileTree.IsBelow l.root (Path.directory p) :=
        isBelow_of_mem_tilesetPaths (slash_not_mem_stem path)
      have hma := mem_of_mem_made s.tree.rootPath path ts.toTileset ho.symm
      rw [← hpt] at hap hb ⊢
      -- The charset is written before the listing and the summary.
      have hpe : ([o.blob, o.ids, o.blobHeader, o.blobSource] ++
          ((if ts.charset.isEmpty then [] else [o.charsetHeader, o.charsetSource]) ++ [o.listing, o.summary])).Perm
          ([o.blob, o.ids, o.blobHeader, o.blobSource] ++ ([o.listing, o.summary] ++
            if ts.charset.isEmpty then [] else [o.charsetHeader, o.charsetSource])) :=
        List.Perm.append_left _ List.perm_append_comm
      exact built_of_builds ((TilesetCompiler.builds_makePausing hps path ts hl hsu
        (fun p hp => hb p (hma p hp)) fun p hp => hap p (hpe.mem_iff.mp hp)).perm hpe) hd

theorem exists_kind_of_mem_outputs {t : FileTree} {p : String} (h : p ∈ i.outputs l t) :
    ∃ kind name, kind ∈ tilesetKinds true ++ levelKinds ∧ IsKind kind ∧ '/' ∉ name.toList ∧
      p = join l.root (kind.1 ++ "/" ++ name ++ kind.2) := by
  cases i with
  | tileset path =>
    obtain ⟨kind, hk, rfl⟩ := List.mem_map.mp h
    exact ⟨kind, _, List.mem_append_left _ (tilesetKinds_subset _ hk), isKind_of_mem_tilesetKinds kind hk,
      slash_not_mem_stem path, rfl⟩
  | level path =>
    obtain ⟨kind, hk, rfl⟩ := List.mem_map.mp h
    exact ⟨kind, _, List.mem_append_right _ hk, isKind_of_mem_levelKinds kind hk, slash_not_mem_levelBase _, rfl⟩

theorem kind_eq_of_components : ∀ kind ∈ tilesetKinds true ++ levelKinds, ∀ kind' ∈ tilesetKinds true ++ levelKinds,
    components kind.1 = components kind'.1 → kind.1 = kind'.1 := by
  have hjoined : ∀ kind ∈ tilesetKinds true ++ levelKinds, Text.join "/" (components kind.1) = kind.1 := by decide
  intro kind hk kind' hk' h
  rw [← hjoined kind hk, ← hjoined kind' hk', h]

theorem eq_of_place_eq {t t₁ t₂ : FileTree} {j : Input} {p q : String} {here place : Place}
    (hp : p ∈ i.outputs l t₁) (hq : q ∈ j.outputs l t₂) (hr : t.locate l.root = .ok here)
    (hpl : t.locate p = .ok place) (hp' : t.locate q = .ok place) : p = q := by
  obtain ⟨kind, name, hk, hi, hn, rfl⟩ := exists_kind_of_mem_outputs hp
  obtain ⟨kind', name', hk', hi', hn', rfl⟩ := exists_kind_of_mem_outputs hq
  have heq := (hi.place_eq hn hr hpl).symm.trans (hi'.place_eq hn' hr hp')
  obtain ⟨hdi, hf⟩ := List.append_inj' (List.append_cancel_left heq) rfl
  rw [kind_eq_of_components kind hk kind' hk' hdi, @String.append_assoc _ name,
    @String.append_assoc _ name', List.singleton_inj.mp hf]

def levelBlob (t : FileTree) (root path : String) : String :=
  join root ("gen/assets/levels" ++ "/" ++ levelBase (levelName t path) ++ ".bin")

theorem levelOutputs_eq_cons (t : FileTree) (root path : String) :
    levelOutputs t root path = levelBlob t root path ::
      pathsOf root (levelBase (levelName t path)) (levelKinds.drop 1) := rfl

theorem levelBlob_mem (t : FileTree) (root path : String) : levelBlob t root path ∈ levelOutputs t root path := by
  rw [levelOutputs_eq_cons]
  exact List.mem_cons_self ..

theorem ne_levelBlob (t : FileTree) (root path : String) :
    ∀ p ∈ pathsOf root (levelBase (levelName t path)) (levelKinds.drop 1), p ≠ levelBlob t root path := by
  intro p hp heq
  obtain ⟨kind, hk, rfl⟩ := List.mem_map.mp hp
  have hl := isKind_of_mem_levelKinds kind (List.mem_of_mem_drop hk)
  have hdi : IsDirectory "gen/assets/levels" := by decide
  rw [levelBlob, hl.directory.join_eq, hdi.join_eq] at heq
  have he : kind.2.toList <:+ ".bin".toList ∨ ".bin".toList <:+ kind.2.toList := by
    have hbin : ".bin".toList <:+ (slashed root ++
        ("gen/assets/levels" ++ "/" ++ levelBase (levelName t path) ++ ".bin")).toList := by
      simp only [String.toList_append, ← List.append_assoc]
      exact List.suffix_append _ _
    refine List.suffix_or_suffix_of_suffix ?_ hbin
    rw [← heq]
    simp only [String.toList_append, ← List.append_assoc]
    exact List.suffix_append _ _
  have hn : ∀ kind ∈ levelKinds.drop 1,
      ¬ (kind.2.toList <:+ ".bin".toList ∨ ".bin".toList <:+ kind.2.toList) := by decide
  exact hn kind hk he

theorem blob_of_level (hr : l.root = s.tree.rootPath) (hd : s.tree.isDirectory l.root = true)
    (hpa : isAbsolute path = true) (hn : (Input.level path).Named s.tree)
    (hot : ∀ place, others place → place.IsInput) (hps : ∀ n, (pause n).Builds others l.root []) {u : Unit}
    {s' : Session} (h : (LevelCompiler.runPausing pause [path]).Ends s u s') :
    ∃ c, LevelCompiler.compileFile s.tree path = (.ok (some c), []) ∧
      ∃ place time, s'.tree.locate (levelBlob s.tree l.root path) = .ok place ∧
        s'.tree.fileAt? place = some ⟨.data c.blob, time⟩ ∧ time < s'.tree.clock := by
  rcases @level_cases others pause s path hpa l.root hd with
    ⟨-, e, he, -⟩ | ⟨c, hc, hm⟩
  · rw [h] at he
    cases he
  · rw [Act.Ends, hm] at h
    generalize hdi : LevelCompiler.Directories.of s.tree.rootPath { argument := some path } = d at h
    generalize ho : LevelCompiler.Outputs.of s.tree.rootPath { argument := some path } d c.level.name = o at h
    obtain ⟨hf, hb, hou⟩ := level_make hr hn hc hdi.symm ho.symm
    have ha := @apart_of_mem_levelOutputs others path l hot s.tree
    rw [← hou] at ha
    rw [levelOutputs_eq_cons, List.cons.injEq] at hou
    obtain ⟨hbl, hre⟩ := hou
    have hpe := perm_outputs o
    refine ⟨c, hc, ?_⟩
    rw [← hbl]
    refine LevelCompiler.blob_of_makePausing hps hf hb
      (fun p hp => ha p (hpe.mem_iff.mp hp)) (fun t place ht hpl p hp hp' => ?_) hd h
    have hp : p ∈ [o.ids, o.blobHeader, o.blobSource, o.summary, o.symbols] := by
      simp only [List.mem_cons, List.not_mem_nil, or_false] at hp ⊢
      tauto
    obtain ⟨here, hh, -⟩ := FileTree.isDirectory_iff.mp ht
    have hmem : ∀ q, q ∈ o.blob :: [o.ids, o.blobHeader, o.blobSource, o.summary, o.symbols] →
        q ∈ (Input.level path).outputs l s.tree := by
      intro q hq
      rw [hbl, hre] at hq
      exact hq
    have heq := eq_of_place_eq (hmem p (List.mem_cons_of_mem _ hp)) (hmem o.blob (List.mem_cons_self ..)) hh hp' hpl
    rw [hre] at hp
    exact ne_levelBlob s.tree l.root path p hp (heq.trans hbl)

end Compilers

end Assets

end EscapeRoom
