import EscapeRoom.Command.LevelCompiler
import EscapeRoom.Proofs.CleanRuns

/-!
# What a level depends on

Whether a level compiles, and to what, depends on the text of its file, on the texts of the tilesets that its
headers name, and on which files there are. Files that appear do not change a level that compiles.
-/

namespace EscapeRoom

open Report

namespace Report

variable {ι χ α β : Type}

/-- What one computation yields, another one yields too. -/
def Stays (m m' : Report ι χ α) : Prop :=
  ∀ a, m.Yields a → m'.Yields a

theorem Stays.refl (m : Report ι χ α) : m.Stays m :=
  fun _ h => h

theorem Stays.bind {m m' : Report ι χ α} {f f' : α → Report ι χ β} (hm : m.Stays m')
    (hf : ∀ a, (f a).Stays (f' a)) : (m >>= f).Stays (m' >>= f') := by
  intro b h
  obtain ⟨a, ha, hb⟩ := yields_bind.mp h
  exact yields_bind.mpr ⟨a, hm a ha, hf a b hb⟩

theorem Stays.foldlM {f f' : β → α → Report ι χ β} {xs : List α} (h : ∀ x ∈ xs, ∀ b, (f b x).Stays (f' b x))
    (b : β) : (xs.foldlM f b).Stays (xs.foldlM f' b) := by
  induction xs generalizing b with
  | nil => exact .refl _
  | cons x xs ih =>
    rw [List.forall_mem_cons] at h
    rw [List.foldlM_cons, List.foldlM_cons]
    exact (h.1 b).bind fun b' => ih h.2 b'

end Report

namespace Tileset

variable {s s' : Surroundings}

/-- A place where there are all files that there are in another one, and maybe more. -/
structure Surroundings.Extends (s s' : Surroundings) : Prop where
  path : s'.path = s.path
  files : ∀ path, s.isFile path = true → s'.isFile path = true

theorem Surroundings.Extends.defaultTileset (h : s.Extends s') :
    Tileset.defaultTileset s' = Tileset.defaultTileset s := by
  rw [Tileset.defaultTileset, h.path, Tileset.defaultTileset]

theorem Surroundings.Extends.charset (h : s.Extends s') {charset : String}
    (hf : s.isFile (s.charsetPath charset) = true) : s'.isFile (s'.charsetPath charset) = true := by
  unfold Surroundings.charsetPath at hf ⊢
  rw [h.path]
  split at hf
  · rename_i ha
    rw [if_pos ha]
    exact h.files _ hf
  · rename_i hr
    rw [if_neg hr]
    dsimp only at hf ⊢
    split
    · rename_i hbe
      exact hbe
    · rename_i hbe
      rw [if_neg fun hb => hbe (h.files _ hb)] at hf
      exact h.files _ hf

theorem stays_readCharset (h : s.Extends s') (line : Line) (fields : Fields) :
    (readCharset line s fields).Stays (readCharset line s' fields) := by
  unfold readCharset
  cases fields.get? "charset" with
  | none => exact .refl _
  | some charset =>
    intro ts hts
    simp only [yields_bind, reportAtIf, yields_reportIf, yields_pure] at hts ⊢
    obtain ⟨u, hf, rfl⟩ := hts
    rw [Bool.not_eq_false'] at hf
    exact ⟨u, by rw [h.charset hf]; rfl, rfl⟩

theorem stays_readHeader (h : s.Extends s') (line : Line) (d : Dialect) (fields : Fields) :
    (readHeader line d s fields).Stays (readHeader line d s' fields) := by
  unfold readHeader
  rw [h.path]
  iterate 9 refine (Report.Stays.refl _).bind fun _ => ?_
  exact (stays_readCharset h line fields).bind fun _ => .refl _

theorem stays_readLine (h : s.Extends s') (line : Line) (d : Dialect) (p : Progress) :
    (readLine line d s p).Stays (readLine line d s' p) := by
  unfold readLine
  split
  · exact .refl _
  · dsimp only
    split
    · exact (stays_readHeader h line d _).bind fun _ => .refl _
    · split
      · rw [h.defaultTileset]
        exact .refl _
      · exact .refl _

theorem stays_read (h : s.Extends s') (text : String) : (read s text).Stays (read s' text) := by
  unfold read checkCount readLines
  rw [h.defaultTileset]
  exact (Report.Stays.foldlM (fun line _ p => stays_readLine h line _ p) _).bind fun _ => .refl _

end Tileset

namespace Level

def tilesetPath (path tileset : String) : String :=
  if Path.isAbsolute tileset then tileset else Path.join (Path.directory path) tileset

/-- The files of the tilesets that the headers of a level name. -/
def tilesetPaths (path text : String) : List String :=
  (sourceLines text).filterMap fun line =>
    if (Text.words line.text).headD "" = "LEVEL" then
      ((Fields.scan line.text).get? "tset").map (tilesetPath path)
    else none

variable {s s' : Sources}

/-- Sources with the same level, the same texts of some tilesets, and all files that there were. -/
structure Sources.Extends (s s' : Sources) (tilesets : List String) : Prop where
  path : s'.path = s.path
  files : ∀ path, s.isFile path = true → s'.isFile path = true
  level : s'.text s.path = s.text s.path
  tilesets : ∀ path ∈ tilesets, s'.text path = s.text path

variable {tilesets : List String}

theorem yields_readTileset_ok {path : String} {ts : LinkedTileset} : (readTileset s path).Yields (.ok ts) ↔
    ∃ text, s.text path = .ok text ∧ (Tileset.read ⟨path, s.isFile⟩ text).Yields ts := by
  have hfm : ∀ issues : List Tileset.Issue, (issues.forM fun i => (Report.report
      { cause := .tileset i.cause, line := i.line, column := i.column, file := some path } : Compiling Unit)).Yields
        ⟨⟩ ↔ issues = [] := by
    intro issues
    rw [yields_forM, List.eq_nil_iff_forall_not_mem]
    exact forall₂_congr fun i _ => iff_false_intro (not_yields_report _ _)
  unfold readTileset
  split
  · rename_i ht
    simp [ht]
  · rename_i ht
    simp [ht]
  · rename_i ht
    simp [ht]
  · rename_i text ht
    rcases hrun : (Tileset.read ⟨path, s.isFile⟩ text).run .collecting with ⟨outcome, issues⟩
    have hright : (∃ text', s.text path = .ok text' ∧ (Tileset.read ⟨path, s.isFile⟩ text').Yields ts) ↔
        outcome = .ok ts ∧ issues = [] := by
      simp [ht, Yields, hrun]
    rw [hright]
    dsimp only
    rw [yields_bind]
    simp only [exists_const, hfm]
    cases outcome with
    | ok ts' => simp [and_comm]
    | error halt =>
      cases halt with
      | issue i => simp
      | broken b => cases b <;> simp

theorem yields_readTileset (h : s.Extends s' tilesets) {path : String} (hp : path ∈ tilesets) {ts : LinkedTileset}
    (hr : (readTileset s path).Yields (.ok ts)) : (readTileset s' path).Yields (.ok ts) := by
  obtain ⟨text, ht, hread⟩ := yields_readTileset_ok.mp hr
  have he : (⟨path, s.isFile⟩ : Tileset.Surroundings).Extends ⟨path, s'.isFile⟩ := ⟨rfl, h.files⟩
  exact yields_readTileset_ok.mpr ⟨text, (h.tilesets path hp).trans ht, Tileset.stays_read he text ts hread⟩

theorem yields_linkTileset (h : s.Extends s' tilesets) {line : Line} {tileset : String}
    (ht : tilesetPath s.path tileset ∈ tilesets) {p p' : Progress}
    (hl : (linkTileset s line tileset p).Yields (.ok p')) : (linkTileset s' line tileset p).Yields (.ok p') := by
  unfold linkTileset at hl ⊢
  rw [h.path, ← tilesetPath] at *
  dsimp only at hl ⊢
  split at hl
  · rename_i hf
    rw [if_pos (h.files _ hf)]
    obtain ⟨r, hr, hl⟩ := yields_bind.mp hl
    cases r with
    | error fault => simp at hl
    | ok ts => exact yields_bind.mpr ⟨.ok ts, yields_readTileset h ht hr, hl⟩
  · obtain ⟨u, hu, -⟩ := yields_bind.mp hl
    exact (not_yields_report _ _ hu).elim

theorem stays_readHeader (h : s.Extends s' tilesets) {line : Line}
    (hl : ∀ tileset, (Fields.scan line.text).get? "tset" = some tileset → tilesetPath s.path tileset ∈ tilesets)
    (p : Progress) : (readHeader s line p).Stays (readHeader s' line p) := by
  unfold readHeader
  dsimp only
  split
  · split
    · exact .refl _
    · intro p' hp'
      cases ht : (Fields.scan line.text).get? "tset" with
      | none =>
        rw [ht] at hp'
        exact hp'
      | some tileset =>
        rw [ht] at hp'
        dsimp only at hp' ⊢
        obtain ⟨linked, hli, hp'⟩ := yields_bind.mp hp'
        cases linked with
        | error fault =>
          obtain ⟨u, hu, -⟩ := yields_bind.mp hp'
          exact (not_yields_report _ _ hu).elim
        | ok p'' =>
          exact yields_bind.mpr ⟨.ok p'', yields_linkTileset h (hl tileset ht) hli, hp'⟩
  · exact .refl _

theorem stays_readLine (h : s.Extends s' tilesets) {line : Line}
    (hl : (Text.words line.text).headD "" = "LEVEL" → ∀ tileset,
      (Fields.scan line.text).get? "tset" = some tileset → tilesetPath s.path tileset ∈ tilesets)
    (p : Progress) : (readLine s p line).Stays (readLine s' p line) := by
  unfold readLine
  split
  · exact .refl _
  · split
    · exact .refl _
    · split
      · exact .refl _
      · split
        · exact .refl _
        · dsimp only
          split
          · rename_i hh
            exact stays_readHeader h (hl hh) p
          · exact .refl _

/-- A level that is read without issues is read the same while the texts that it is made of stay. -/
theorem stays_load {text : String} (ht : s.text s.path = .ok text)
    (h : s.Extends s' (tilesetPaths s.path text)) : (load s).Stays (load s') := by
  have hr : (read s text).Stays (read s' text) := by
    refine (Report.Stays.foldlM (fun line hl p => stays_readLine h (fun hh tileset hts => ?_) p) _).bind
      fun _ => .refl _
    exact List.mem_filterMap.mpr ⟨line, hl, by rw [if_pos hh, hts, Option.map_some]⟩
  intro level hle
  rw [load, ht] at hle
  rw [load, h.path, h.level, ht]
  obtain ⟨a, ha, rfl⟩ := yields_map.mp hle
  exact yields_map.mpr ⟨a, hr a ha, rfl⟩

end Level

namespace LevelCompiler

variable {t t' : FileTree} {path : String} {c : Level.Compiled}

theorem compileFile_eq_ok : compileFile t path = (.ok (some c), []) ↔
    ∃ level, (Level.load ⟨path, t.isFile, t.linewiseText⟩).Yields (some level) ∧ (Level.compile level).Yields c := by
  constructor
  · intro h
    unfold compileFile at h
    split at h
    · cases h
    · cases h
    · cases h
    · rename_i level log hl
      split at h
      · cases h
      · cases h
      · rename_i c' more hc
        simp only [Prod.mk.injEq, Except.ok.injEq, Option.some.injEq, List.append_eq_nil_iff] at h
        obtain ⟨rfl, rfl, rfl⟩ := h
        exact ⟨level, hl, hc⟩
  · rintro ⟨level, hl, hc⟩
    have hl : (Level.load ⟨path, t.isFile, t.linewiseText⟩).run .collecting = (.ok (some level), []) := hl
    have hc : (Level.compile level).run .collecting = (.ok c, []) := hc
    unfold compileFile
    rw [hl]
    dsimp only
    rw [hc]
    rfl

theorem exists_text_of_compileFile (h : compileFile t path = (.ok (some c), [])) :
    ∃ text, t.linewiseText path = .ok text := by
  obtain ⟨level, hl, -⟩ := compileFile_eq_ok.mp h
  unfold Level.load at hl
  dsimp only at hl
  cases ht : t.linewiseText path with
  | ok text => exact ⟨text, rfl⟩
  | error e =>
    rw [ht] at hl
    obtain ⟨u, hu, -⟩ := yields_bind.mp hl
    exact (not_yields_report _ _ hu).elim

/-- A level that compiles does so the same while the texts that it is made of stay. -/
theorem compileFile_of_same {text : String} (h : compileFile t path = (.ok (some c), []))
    (ht : t.linewiseText path = .ok text) (hf : ∀ q, t.isFile q = true → t'.isFile q = true)
    (hl : t'.linewiseText path = t.linewiseText path)
    (hti : ∀ q ∈ Level.tilesetPaths path text, t'.linewiseText q = t.linewiseText q) :
    compileFile t' path = (.ok (some c), []) := by
  obtain ⟨level, hlo, hc⟩ := compileFile_eq_ok.mp h
  have he : (⟨path, t.isFile, t.linewiseText⟩ : Level.Sources).Extends ⟨path, t'.isFile, t'.linewiseText⟩
      (Level.tilesetPaths path text) := ⟨rfl, hf, hl, hti⟩
  exact compileFile_eq_ok.mpr ⟨level, Level.stays_load ht he _ hlo, hc⟩

end LevelCompiler

end EscapeRoom
