import Mathlib.Data.List.Chain
import EscapeRoom.Proofs.Assets.Inputs
import EscapeRoom.Proofs.CleanRuns
import EscapeRoom.Proofs.Compilers

/-!
# Predicted outputs

The outputs of an asset are told from its file by a rule of their own. They are the files that its compiler
writes exactly if both rules come to the same name: for a level the base of its file names, for a tileset
the name that it declares, which has to be that of the file, together with whether it names a charset.
-/

namespace EscapeRoom

namespace FileTree

theorem isAbsolute_rootPath (t : FileTree) : Path.isAbsolute t.rootPath = true := by
  simp [rootPath, Place.path, Path.isAbsolute]

end FileTree

namespace Assets

open EscapeRoom.Path

variable {root : String}

def SamePaths (paths paths' : List String) : Prop :=
  ∀ p, p ∈ paths ↔ p ∈ paths'

theorem slash_not_mem_fileBase (name : String) : '/' ∉ (Level.fileBase name).toList :=
  Text.slash_not_mem_slug (by decide) name

/-- The kinds whose file names may end as those of another kind. -/
def alike (kinds : List (String × String)) (ending : String) : List (String × String) :=
  kinds.filter fun kind => kind.2.toList.isSuffixOf ending.toList || ending.toList.isSuffixOf kind.2.toList

theorem exists_alike {ending path : String} {kinds : List (String × String)} {pathOf : String × String → String}
    (hp : ending.toList <:+ path.toList) (hk : ∀ kind, kind.2.toList <:+ (pathOf kind).toList)
    (h : path ∈ kinds.map pathOf) : ∃ kind ∈ alike kinds ending, path = pathOf kind := by
  obtain ⟨kind, hki, rfl⟩ := List.mem_map.mp h
  refine ⟨kind, List.mem_filter.mpr ⟨hki, ?_⟩, rfl⟩
  rcases List.suffix_or_suffix_of_suffix (hk kind) hp with hs | hs
  · simp [hs]
  · simp [hs]

theorem suffix_pathOf (root name : String) (kind : String × String) :
    kind.2.toList <:+ (join root (kind.1 ++ "/" ++ name ++ kind.2)).toList := by
  refine List.IsSuffix.trans ?_ (suffix_join root _)
  rw [String.toList_append]
  exact List.suffix_append _ _

theorem IsDirectory.join_eq {directory : String} (h : IsDirectory directory) (root name ending : String) :
    join root (directory ++ "/" ++ name ++ ending) = slashed root ++ (directory ++ "/" ++ name ++ ending) := by
  apply join_of_relative
  rw [String.append_assoc, String.append_assoc, isAbsolute_append h.nonempty, h.relative]

theorem IsDirectory.cases_of_eq {directory ending name stem : String} (h : IsDirectory directory)
    (heq : join root (directory ++ "/" ++ stem ++ ending) = join root (join directory (name ++ ending))) :
    name = stem ∨ name = slashed root ++ (directory ++ "/" ++ stem) := by
  rw [h.join_eq] at heq
  cases hn : isAbsolute (name ++ ending) with
  | true =>
    right
    rw [join_of_isAbsolute hn, join_of_isAbsolute hn] at heq
    apply String.toList_injective
    have hl := congrArg String.toList heq
    simp only [String.toList_append] at hl ⊢
    simpa [← List.append_assoc] using hl.symm
  | false =>
    left
    rw [join_of_relative hn, slashed_of_last h.nonempty h.unslashed,
      ← @String.append_assoc (directory ++ "/"), h.join_eq] at heq
    apply String.toList_injective
    have hl := congrArg String.toList heq
    simpa using hl.symm

theorem samePaths_levels_iff {base base' : String} :
    SamePaths (pathsOf root base levelKinds) (pathsOf root base' levelKinds) ↔ base = base' := by
  constructor
  · intro h
    have hmem := (h (join root ("gen/assets/levels" ++ "/" ++ base ++ ".bin"))).mp (by simp [pathsOf, levelKinds])
    obtain ⟨kind, hk, heq⟩ := exists_alike (suffix_pathOf root base ("gen/assets/levels", ".bin"))
      (suffix_pathOf root base') hmem
    have ha : alike levelKinds ".bin" = [("gen/assets/levels", ".bin")] := by decide
    rw [ha, List.mem_singleton] at hk
    subst hk
    have hdi : IsDirectory "gen/assets/levels" := by decide
    rw [hdi.join_eq, hdi.join_eq] at heq
    apply String.toList_injective
    have hl := congrArg String.toList heq
    simpa using hl
  · rintro rfl p
    exact Iff.rfl

/-- The files of a tileset that is compiled to a blob: their names come from the one that it declares. -/
def writtenTileset (root blob name : String) (withCharset : Bool) : List String :=
  blob :: ((tilesetKinds withCharset).drop 1).map fun kind => join root (join kind.1 (name ++ kind.2))

theorem suffix_written (root name : String) (kind : String × String) :
    kind.2.toList <:+ (join root (join kind.1 (name ++ kind.2))).toList := by
  refine List.IsSuffix.trans ?_ (suffix_join root _)
  refine List.IsSuffix.trans ?_ (suffix_join kind.1 _)
  rw [String.toList_append]
  exact List.suffix_append _ _

/-- An output that does not end as a blob is found among the other written files. -/
theorem exists_alike_of_mem_written {stem name ending path : String} {withCharset : Bool}
    (hp : ending.toList <:+ path.toList) (he : alike [("", ".bin")] ending = [])
    (h : path ∈ writtenTileset root (join root ("gen/assets" ++ "/" ++ stem ++ ".bin")) name withCharset) :
    ∃ kind ∈ alike ((tilesetKinds withCharset).drop 1) ending, path = join root (join kind.1 (name ++ kind.2)) := by
  rcases List.mem_cons.mp h with rfl | h
  · exfalso
    have hb : join root ("gen/assets" ++ "/" ++ stem ++ ".bin") ∈
        [("", ".bin")].map fun kind => join root ("gen/assets" ++ "/" ++ stem ++ kind.2) :=
      List.mem_singleton.mpr rfl
    obtain ⟨kind, hk, -⟩ :=
      exists_alike hp (fun kind => suffix_pathOf root stem ("gen/assets", kind.2)) hb
    rw [he] at hk
    cases hk
  · exact exists_alike hp (suffix_written root name) h

/-- Two kinds of outputs of a tileset in different directories. -/
def twoKinds : List (String × String) :=
  [("gen/include/tilesets", "_tset_ids.h"), ("gen/analysis/tilesets", ".sym")]

theorem alike_twoKinds : ∀ withCharset, ∀ kind ∈ twoKinds, alike [("", ".bin")] kind.2 = [] ∧
    kind ∈ tilesetKinds withCharset ∧ alike ((tilesetKinds withCharset).drop 1) kind.2 = [kind] := by
  decide

section

variable {stem name : String} {predicted withCharset : Bool}

theorem name_eq_of_samePaths (h : SamePaths (pathsOf root stem (tilesetKinds predicted))
    (writtenTileset root (join root ("gen/assets" ++ "/" ++ stem ++ ".bin")) name withCharset)) :
    name = stem := by
  have hn : ∀ kind ∈ twoKinds, name = stem ∨ name = slashed root ++ (kind.1 ++ "/" ++ stem) := by
    intro kind hk
    obtain ⟨hb, hmem, -⟩ := alike_twoKinds predicted kind hk
    obtain ⟨-, -, ha⟩ := alike_twoKinds withCharset kind hk
    have hw := (h _).mp (List.mem_map.mpr ⟨kind, hmem, rfl⟩)
    obtain ⟨kind', hk', heq⟩ := exists_alike_of_mem_written (suffix_pathOf root stem kind) hb hw
    rw [ha, List.mem_singleton] at hk'
    subst hk'
    exact (isKind_of_mem_tilesetKinds _ hmem).directory.cases_of_eq heq
  rcases hn _ (List.mem_cons_self ..) with hna | hids
  · exact hna
  rcases hn _ (List.mem_cons_of_mem _ (List.mem_singleton.mpr rfl)) with hna | hl
  · exact hna
  have hli := congrArg String.toList (hids.symm.trans hl)
  simp at hli

theorem withCharset_eq_of_samePaths (h : SamePaths (pathsOf root stem (tilesetKinds predicted))
    (writtenTileset root (join root ("gen/assets" ++ "/" ++ stem ++ ".bin")) name withCharset)) :
    withCharset = predicted := by
  cases predicted with
  | false =>
    cases withCharset with
    | false => rfl
    | true =>
      have hmem : join root (join "gen/src/charset" (name ++ "_charset.c")) ∈
          writtenTileset root (join root ("gen/assets" ++ "/" ++ stem ++ ".bin")) name true := by
        simp [writtenTileset, tilesetKinds]
      obtain ⟨kind, hk, -⟩ := exists_alike (suffix_written root name ("gen/src/charset", "_charset.c"))
        (suffix_pathOf root stem) ((h _).mpr hmem)
      have hn : alike (tilesetKinds false) "_charset.c" = [] := by decide
      rw [hn] at hk
      cases hk
  | true =>
    cases withCharset with
    | true => rfl
    | false =>
      have hmem : join root ("gen/src/charset" ++ "/" ++ stem ++ "_charset.c") ∈
          pathsOf root stem (tilesetKinds true) := by
        simp [pathsOf, tilesetKinds]
      obtain ⟨kind, hk, -⟩ := exists_alike_of_mem_written
        (suffix_pathOf root stem ("gen/src/charset", "_charset.c")) (by decide) ((h _).mp hmem)
      have hn : alike ((tilesetKinds false).drop 1) "_charset.c" = [] := by decide
      rw [hn] at hk
      cases hk

theorem writtenTileset_eq (hs : '/' ∉ stem.toList) :
    writtenTileset root (join root ("gen/assets" ++ "/" ++ stem ++ ".bin")) stem withCharset =
      pathsOf root stem (tilesetKinds withCharset) := by
  have hf : tilesetKinds withCharset = ("gen/assets", ".bin") :: (tilesetKinds withCharset).drop 1 := rfl
  rw [writtenTileset, pathsOf, hf, List.map_cons, List.drop_one, List.tail_cons]
  refine congrArg (List.cons _) (List.map_congr_left ?_)
  intro kind hk
  obtain ⟨hdi, he, -⟩ := isKind_of_mem_tilesetKinds kind (List.mem_of_mem_drop hk)
  have hr : isAbsolute (stem ++ kind.2) = false := by
    apply isAbsolute_eq_false
    rw [String.toList_append, List.mem_append, not_or]
    exact ⟨hs, he⟩
  rw [join_of_relative hr, slashed_of_last hdi.nonempty hdi.unslashed,
    ← String.append_assoc]

theorem samePaths_tileset_iff (hs : '/' ∉ stem.toList) :
    SamePaths (pathsOf root stem (tilesetKinds predicted))
        (writtenTileset root (join root ("gen/assets" ++ "/" ++ stem ++ ".bin")) name withCharset) ↔
      name = stem ∧ withCharset = predicted := by
  constructor
  · intro h
    exact ⟨name_eq_of_samePaths h, withCharset_eq_of_samePaths h⟩
  · rintro ⟨rfl, rfl⟩ p
    rw [writtenTileset_eq hs]

end

theorem takesInput_level : LevelCompiler.usage.TakesInput :=
  ⟨⟨"input", rfl⟩, by decide⟩

theorem takesInput_tileset : TilesetCompiler.usage.TakesInput :=
  ⟨⟨"input", rfl⟩, by decide⟩

theorem join_levelKind {kind : String × String} (hr : isAbsolute root = true) (hk : kind ∈ levelKinds)
    (name : String) : join root (join (join root kind.1) (Level.fileBase name ++ kind.2)) =
      join root (kind.1 ++ "/" ++ Level.fileBase name ++ kind.2) := by
  obtain ⟨hdi, he, -⟩ := isKind_of_mem_levelKinds kind hk
  have hre : isAbsolute (Level.fileBase name ++ kind.2) = false := by
    apply isAbsolute_eq_false
    rw [String.toList_append, List.mem_append, not_or]
    exact ⟨slash_not_mem_fileBase name, he⟩
  rw [join_join hdi.relative hdi.nonempty hdi.unslashed hre,
    join_of_isAbsolute (isAbsolute_join hr _), @String.append_assoc (kind.1 ++ "/")]

theorem value_of_no_values (argument : Option String) (option default : String) :
    ({ argument } : Arguments).value option default = default := rfl

theorem outputs_level (hr : isAbsolute root = true) (path name : String) {o : LevelCompiler.Outputs}
    (ho : o = LevelCompiler.Outputs.of root { argument := some path }
      (LevelCompiler.Directories.of root { argument := some path }) name) :
    o.format = "" ∧ [o.blob, o.ids, o.blobHeader, o.blobSource, o.summary, o.symbols] =
      pathsOf root (Level.fileBase name) levelKinds := by
  have hp : pathsOf root (Level.fileBase name) levelKinds = levelKinds.map fun kind =>
      join root (join (join root kind.1) (Level.fileBase name ++ kind.2)) := by
    apply List.map_congr_left
    intro kind hk
    exact (join_levelKind hr hk name).symm
  subst ho
  rw [hp]
  simp [LevelCompiler.Outputs.of, LevelCompiler.Directories.of, value_of_no_values, levelKinds]

theorem writes_of_run_level {s s' : Session} {path : String} {u : Unit}
    (h : (LevelCompiler.run [path]).Ends s u s') :
    ∃ c, LevelCompiler.compileFile s.tree path = (.ok (some c), []) ∧
      s.tree.Writes s'.tree (pathsOf s.tree.rootPath (Level.fileBase c.level.name) levelKinds) := by
  simp only [LevelCompiler.run, Act.ends_bind, Act.ends_arguments, Act.ends_root] at h
  obtain ⟨a, s₁, ⟨ha, rfl⟩, c, s₂, hc, root, s₃, ⟨rfl, rfl⟩, u₁, s₄, hm, hw⟩ := h
  obtain rfl := Usage.read_input takesInput_level ha
  obtain ⟨hco, rfl⟩ := LevelCompiler.compileFile_of_readInput hc
  refine ⟨c, hco, ?_⟩
  generalize ho : LevelCompiler.Outputs.of s.tree.rootPath { argument := some path } _ c.level.name = o
    at hw
  obtain ⟨hf, hou⟩ := outputs_level s.tree.isAbsolute_rootPath path c.level.name ho.symm
  obtain ⟨_, rfl, hm⟩ := (Act.delivers_forM Act.delivers_makeDirectories).emits hm
  obtain ⟨_, ⟨cwd, rfl⟩, hw⟩ := (LevelCompiler.delivers_writeOutputs c o).emits hw
  have hwrites := (hm.trans hw).writes
  simp only [LevelCompiler.plan, hf, List.nil_append] at hwrites
  rw [← hou]
  -- The summary and the symbols are written before the blob is embedded.
  exact hwrites.perm
    (List.Perm.append_left [o.blob, o.ids] (@List.perm_append_comm _ [o.summary, o.symbols] _))

theorem value_output (argument : Option String) (blob default : String) :
    ({ argument, values := [("--output", blob)] } : Arguments).value "--output" default = blob := rfl

theorem value_of_ne_output {option : String} (h : option ≠ "--output") (argument : Option String)
    (blob default : String) :
    ({ argument, values := [("--output", blob)] } : Arguments).value option default = default := by
  simp [Arguments.value, Table.getD, Table.get?_cons, Ne.symm h]

/-- The outputs of a tileset other than the blob, where no option but that for the blob is given. -/
theorem usual_outputs {a : Arguments} (hr : isAbsolute root = true)
    (ha : ∀ option ≠ "--output", ∀ default, a.value option default = default) (ts : Tileset)
    {o : TilesetCompiler.Outputs} (ho : o = TilesetCompiler.Outputs.of root a ts) :
    o.listing.isEmpty = false ∧ o.summary.isEmpty = false ∧
      [o.ids, o.blobHeader, o.blobSource] ++ ([o.listing, o.summary] ++
        if ts.charset.isEmpty then [] else [o.charsetHeader, o.charsetSource]) =
      ((tilesetKinds (!ts.charset.isEmpty)).drop 1).map fun kind => join root (join kind.1 (ts.name ++ kind.2)) := by
  have hauto : normalize "AUTO" = "AUTO" := by decide
  have hn : ∀ a b, (join root (join a b)).isEmpty = false := by
    intro a b
    have hj := isAbsolute_join hr (join a b)
    cases he : (join root (join a b)).isEmpty with
    | false => rfl
    | true =>
      rw [String.isEmpty_iff.mp he] at hj
      cases hj
  subst ho
  simp (disch := decide) only [TilesetCompiler.Outputs.of, ha, hauto]
  cases hc : ts.charset.isEmpty with
  | true => simp [tilesetKinds, hn]
  | false => simp [tilesetKinds, hn]

theorem outputs_tileset (hr : isAbsolute root = true) {blob : String} (hb : isAbsolute blob = true)
    (path : String) (ts : Tileset) {o : TilesetCompiler.Outputs} (ho : o = TilesetCompiler.Outputs.of root
      { argument := some path, values := [("--output", blob)] } ts) :
    o.listing.isEmpty = false ∧ o.summary.isEmpty = false ∧
      [o.blob, o.ids, o.blobHeader, o.blobSource] ++ ([o.listing, o.summary] ++
        if ts.charset.isEmpty then [] else [o.charsetHeader, o.charsetSource]) =
      writtenTileset root blob ts.name (!ts.charset.isEmpty) := by
  obtain ⟨hl, hs, hothers⟩ :=
    usual_outputs hr (fun option hne default => value_of_ne_output hne (some path) blob default) ts ho
  have hblob : o.blob = blob := by
    have hne : blob ≠ "" := by
      rintro rfl
      cases hb
    simp [ho, TilesetCompiler.Outputs.of, value_output, hne, join_of_isAbsolute hb]
  exact ⟨hl, hs, by rw [writtenTileset, ← hothers, ← hblob]; rfl⟩

theorem writes_of_run_tileset {s s' : Session} {path blob : String} {u : Unit} (hb : isAbsolute blob = true)
    (h : (TilesetCompiler.run [path, "-o", blob]).Ends s u s') :
    ∃ source ts, s.tree.linewiseText path = .ok source ∧
      (Tileset.read ⟨path, s.tree.isFile⟩ source).Yields ts ∧
      s.tree.Writes s'.tree (writtenTileset s.tree.rootPath blob ts.name (!ts.charset.isEmpty)) := by
  have hp : TilesetCompiler.usage.classify blob = .ok (.plain blob) := by
    unfold Usage.classify
    rw [if_pos]
    unfold isAbsolute at hb
    cases hcs : blob.toList with
    | nil => simp [hcs] at hb
    | cons c cs =>
      simp only [hcs, List.head?_cons, Option.some.injEq, decide_eq_true_eq] at hb
      subst hb
      rw [Text.startsWith, hcs]
      rfl
  have hda : blob ≠ "--" := by
    rintro rfl
    cases hb
  simp only [TilesetCompiler.run, Act.ends_bind, Act.ends_arguments, Act.ends_root] at h
  obtain ⟨a, s₁, ⟨ha, rfl⟩, ts, s₂, hts, root, s₃, ⟨rfl, rfl⟩, hw⟩ := h
  obtain rfl := Usage.read_input_option takesInput_tileset (o := ⟨["-o", "--output"], .value⟩) (by decide)
    hda (by decide) hp rfl ha
  obtain ⟨⟨source, hs, hr⟩, rfl⟩ := TilesetCompiler.read_of_readInput hts
  refine ⟨source, ts, hs, hr, ?_⟩
  generalize ho : TilesetCompiler.Outputs.of s.tree.rootPath _ ts.toTileset = o at hw
  obtain ⟨hl, hsu, hou⟩ :=
    outputs_tileset s.tree.isAbsolute_rootPath hb path ts.toTileset ho.symm
  rw [← hou]
  -- The charset is written before the listing and the summary.
  obtain ⟨_, ⟨cwd, charset, rfl⟩, hw⟩ := (TilesetCompiler.delivers_writeOutputs path ts o).emits hw
  refine hw.writes.perm ?_
  cases hc : ts.charset.isEmpty with
  | true => simp [TilesetCompiler.plan, hc, hl, hsu]
  | false =>
    simp only [TilesetCompiler.plan, hc, hl, hsu, Bool.not_false, if_true, Bool.false_eq_true, if_false, List.map_append]
    exact List.Perm.append_left _ List.perm_append_comm

/-- A name in ASCII in which separators stand alone between letters and digits. -/
structure IsPlain (name : String) : Prop where
  ascii : ∀ c ∈ Text.trimChars name.toList, c.toNat < 128
  apart : (Text.trimChars name.toList).IsChain fun c d =>
    Text.isAsciiAlphanumeric c = true ∨ Text.isAsciiAlphanumeric d = true

theorem map_eq_joinWords {cs : List Char} (ha : ∀ c ∈ cs, c.toNat < 128)
    (hap : cs.IsChain fun c d => Text.isAsciiAlphanumeric c = true ∨ Text.isAsciiAlphanumeric d = true)
    (inside : Bool) (hi : inside = true → ∀ c ∈ cs.head?, Text.isAsciiAlphanumeric c = true) :
    (cs.map fun c => if Text.isAlphanumeric c then c else '_') = Text.joinWords inside cs := by
  induction cs generalizing inside with
  | nil => rfl
  | cons c cs ih =>
    rw [List.forall_mem_cons] at ha
    have hs : Text.isAlphanumeric c = Text.isAsciiAlphanumeric c := by
      rw [Text.isAlphanumeric, if_pos ha.1, Text.isAsciiAlphanumeric]
    rw [List.map_cons, Text.joinWords, hs]
    cases hc : Text.isAsciiAlphanumeric c with
    | true =>
      simp only [if_true]
      rw [ih ha.2 hap.tail false (by simp)]
    | false =>
      have hi : inside = false := by
        cases inside with
        | false => rfl
        | true =>
          rw [hi rfl c (by simp)] at hc
          cases hc
      subst hi
      simp only [Bool.false_eq_true, if_false]
      rw [ih ha.2 hap.tail true]
      intro _ d hd
      obtain ⟨cs', rfl⟩ := List.head?_eq_some_iff.mp hd
      rw [List.isChain_cons_cons, hc] at hap
      simpa using hap.1

theorem levelBase_eq_fileBase {name : String} (h : IsPlain name) : levelBase name = Level.fileBase name := by
  unfold levelBase Level.fileBase Text.slug
  rw [map_eq_joinWords h.ascii h.apart false (by simp)]
  dsimp only
  generalize Text.dropUnderscores (Text.joinWords false (Text.trimChars name.toList)) = words
  cases words with
  | nil => rfl
  | cons c cs => rfl

/-- The predicted outputs are the written ones exactly if the names agree. -/
theorem samePaths_outputs_iff (s s' : Session) (path : String) :
    ((LevelCompiler.run [path]).Ends s () s' →
      ∃ c, LevelCompiler.compileFile s.tree path = (.ok (some c), []) ∧
        s.tree.Writes s'.tree (pathsOf s.tree.rootPath (Level.fileBase c.level.name) levelKinds) ∧
        (SamePaths (levelOutputs s.tree s.tree.rootPath path)
            (pathsOf s.tree.rootPath (Level.fileBase c.level.name) levelKinds) ↔
          levelBase (levelName s.tree path) = Level.fileBase c.level.name) ∧
        (IsPlain c.level.name → levelName s.tree path = c.level.name →
          SamePaths (levelOutputs s.tree s.tree.rootPath path)
            (pathsOf s.tree.rootPath (Level.fileBase c.level.name) levelKinds))) ∧
    ((TilesetCompiler.run
        [path, "-o", (tilesetOutputs s.tree s.tree.rootPath path).head?.getD ""]).Ends s () s' →
      ∃ source ts, s.tree.linewiseText path = .ok source ∧
        (Tileset.read ⟨path, s.tree.isFile⟩ source).Yields ts ∧
        s.tree.Writes s'.tree (writtenTileset s.tree.rootPath
          ((tilesetOutputs s.tree s.tree.rootPath path).head?.getD "") ts.name (!ts.charset.isEmpty)) ∧
        (SamePaths (tilesetOutputs s.tree s.tree.rootPath path) (writtenTileset s.tree.rootPath
            ((tilesetOutputs s.tree s.tree.rootPath path).head?.getD "") ts.name (!ts.charset.isEmpty)) ↔
          ts.name = stem path ∧ (!ts.charset.isEmpty) = namesCharset s.tree path)) := by
  constructor
  · intro h
    obtain ⟨c, hcompiled, hwrites⟩ := writes_of_run_level h
    refine ⟨c, hcompiled, hwrites, samePaths_levels_iff, ?_⟩
    intro hplain hname
    apply samePaths_levels_iff.mpr
    rw [hname, levelBase_eq_fileBase hplain]
  · intro h
    have hblob : (tilesetOutputs s.tree s.tree.rootPath path).head?.getD "" =
        join s.tree.rootPath ("gen/assets" ++ "/" ++ stem path ++ ".bin") := by
      simp only [tilesetOutputs, pathsOf, tilesetKinds, List.cons_append, List.map_cons, List.head?_cons,
        Option.getD_some]
    rw [hblob] at h ⊢
    obtain ⟨source, ts, hsource, hread, hwrites⟩ :=
      writes_of_run_tileset (isAbsolute_join s.tree.isAbsolute_rootPath _) h
    exact ⟨source, ts, hsource, hread, hwrites, samePaths_tileset_iff (slash_not_mem_stem path)⟩

/-- A project with a tileset, and with a level whose name is two words. -/
def twoWords : Session where
  tree :=
    { root := []
      directories := []
      files := [
        (["a.lvl"], fileOfLines ["LEVEL name=\"A B\" w=0 h=0 start=R:S", "TILES", ". 0", "END", "ROOM R", "SPAWNS",
          "S 0,0", "END", "ENDROOM"]),
        (["a.tset"], fileOfLines ["TSET tileSize=2x2 bgColor=0 mc1Color=1 mc2Color=2", "TILES",
          "A chars=1,2,3,4 color=5", "END"])] }

set_option maxRecDepth 10000 in
theorem run_level_twoWords : ((LevelCompiler.run ["a.lvl"]).outcome twoWords).1 = .ok () ∧
    ∀ p ∈ levelOutputs twoWords.tree twoWords.tree.rootPath "a.lvl",
      ((LevelCompiler.run ["a.lvl"]).outcome twoWords).2.tree.isFile p = false := by
  decide +kernel

set_option maxRecDepth 10000 in
theorem run_tileset_twoWords : ((TilesetCompiler.run ["a.tset", "-o",
      (tilesetOutputs twoWords.tree twoWords.tree.rootPath "a.tset").head?.getD ""]).outcome twoWords).1 =
    .ok () := by
  decide +kernel

theorem samePaths_outputs_iff_twoWords :
    (∃ s' c, (LevelCompiler.run ["a.lvl"]).Ends twoWords () s' ∧
      LevelCompiler.compileFile twoWords.tree "a.lvl" = (.ok (some c), []) ∧
      (SamePaths (levelOutputs twoWords.tree twoWords.tree.rootPath "a.lvl")
          (pathsOf twoWords.tree.rootPath (Level.fileBase c.level.name) levelKinds) ↔
        levelBase (levelName twoWords.tree "a.lvl") = Level.fileBase c.level.name)) ∧
    ∃ (s' : Session) (ts : LinkedTileset), (TilesetCompiler.run ["a.tset", "-o",
        (tilesetOutputs twoWords.tree twoWords.tree.rootPath "a.tset").head?.getD ""]).Ends twoWords () s' ∧
      (SamePaths (tilesetOutputs twoWords.tree twoWords.tree.rootPath "a.tset")
          (writtenTileset twoWords.tree.rootPath
            ((tilesetOutputs twoWords.tree twoWords.tree.rootPath "a.tset").head?.getD "") ts.name
            (!ts.charset.isEmpty)) ↔
        ts.name = stem "a.tset" ∧ (!ts.charset.isEmpty) = namesCharset twoWords.tree "a.tset") := by
  constructor
  · have hends := Act.ends_outcome run_level_twoWords.1
    obtain ⟨c, hcompiled, -, hiff, -⟩ := (samePaths_outputs_iff twoWords _ "a.lvl").1 hends
    exact ⟨_, c, hends, hcompiled, hiff⟩
  · have hends := Act.ends_outcome run_tileset_twoWords
    obtain ⟨source, ts, -, -, -, hiff⟩ := (samePaths_outputs_iff twoWords _ "a.tset").2 hends
    exact ⟨_, ts, hends, hiff⟩

/-- The level is compiled, and none of its predicted outputs is there. -/
theorem not_isFile_of_two_words : ∃ s', (LevelCompiler.run ["a.lvl"]).Ends twoWords () s' ∧
    ∀ p ∈ levelOutputs twoWords.tree twoWords.tree.rootPath "a.lvl", s'.tree.isFile p = false :=
  ⟨_, Act.ends_outcome run_level_twoWords.1, run_level_twoWords.2⟩

end Assets

end EscapeRoom
