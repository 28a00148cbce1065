import EscapeRoom.Proofs.Compilers
import EscapeRoom.Proofs.Level.Dependence

/-!
# Failed runs leave the files alone

The compilers look at all of their input before they touch a file. A run on an input with anything wrong changes nothing
but the log, and it does not end well. A run on a clean input makes directories and then writes the blob of that input
before every other file; it may still fail at a file that cannot be written.
-/

namespace EscapeRoom

open Report

namespace Act

variable {α : Type} {s : Session}

/-- The run changed nothing but the log, and it did not end well. -/
def Spared (s : Session) (r : Except Ending Unit × Session) : Prop :=
  ∃ ending log, r = (.error ending, { s with log }) ∧ ending ≠ .exit 0

/-- All that the run did to the files was to make directories and to write files, before all others the blob at its
path. If it ended well, it did write the blob. -/
def WroteBlob (s : Session) (path : String) (blob : Bytes) (r : Except Ending Unit × Session) : Prop :=
  ∃ out, s.tree.Emits out r.2.tree ∧ (out = [] ∨ ∃ more, out = (path, .data blob) :: more) ∧ (r.1 = .ok () → out ≠ [])

theorem Delivers.wroteBlob {m : Act Unit} {P : List (String × Content) → Prop} (h : m.Delivers P) {path : String}
    {blob : Bytes} (hp : ∀ plan, P plan → ∃ more, plan = (path, .data blob) :: more) (s : Session) :
    WroteBlob s path blob (m.outcome s) := by
  obtain ⟨out, plan, hplan, hpre, hout, -, hok⟩ := h s
  obtain ⟨more, rfl⟩ := hp plan hplan
  refine ⟨out, hout, ?_, fun hr => by simp [hok () hr]⟩
  cases out with
  | nil => exact .inl rfl
  | cons e rest =>
    obtain ⟨rfl, -⟩ := List.cons_prefix_cons.mp hpre
    exact .inr ⟨rest, rfl⟩

/-- How a compiler treats the files, where `Clean a path blob` says that with the arguments `a` nothing is wrong with the
input, which has this blob and this path for it: without a clean input it spares all files, and if it changes anything
or ends well, then it has written the blob of a clean input. -/
structure Careful {ε : Type} (s : Session) (arguments : Except ε Arguments)
    (Clean : Arguments → String → Bytes → Prop) (r : Except Ending Unit × Session) : Prop where
  spared : ∀ a, arguments = .ok a → (∀ path blob, ¬Clean a path blob) → Spared s r
  wrote : r.2.tree ≠ s.tree ∨ r.1 = .ok () →
    ∃ a path blob, arguments = .ok a ∧ Clean a path blob ∧ WroteBlob s path blob r

theorem careful_of_runs {ε : Type} {arguments : Except ε Arguments} {Clean : Arguments → String → Bytes → Prop}
    {r : Except Ending Unit × Session}
    (hn : (∀ a, arguments ≠ .ok a) → ∃ ending log, r = (.error ending, { s with log }))
    (hs : ∀ a, arguments = .ok a → (∀ path blob, ¬Clean a path blob) → Spared s r)
    (hw : ∀ a path blob, arguments = .ok a → Clean a path blob → WroteBlob s path blob r) :
    Careful s arguments Clean r := by
  refine ⟨hs, fun hc => ?_⟩
  have hsa : ¬∃ ending log, r = (.error ending, { s with log }) := by
    rintro ⟨ending, log, rfl⟩
    simp at hc
  by_contra hno
  simp only [not_exists, not_and] at hno
  by_cases hre : ∃ a, arguments = .ok a
  · obtain ⟨a, ha⟩ := hre
    obtain ⟨ending, log, hr, -⟩ := hs a ha fun path blob hcl =>
      hno a path blob ha hcl (hw a path blob ha hcl)
    exact hsa ⟨ending, log, hr⟩
  · exact hsa (hn (not_exists.mp hre))

theorem exists_ends_complain {f : α → String} (xs : List α) (s : Session) :
    ∃ log, (xs.forM fun x => complain (f x)).Ends s () { s with log } := by
  induction xs generalizing s with
  | nil => exact ⟨s.log, rfl⟩
  | cons x xs ih =>
    obtain ⟨log, hlog⟩ := ih { s with log := s.log ++ [.err (f x)] }
    exact ⟨log, ends_bind.mpr ⟨(), _, rfl, hlog⟩⟩

/-- What goes wrong with the words of a command comes before everything else. -/
theorem outcome_arguments_of_error {u : Usage} {words : List String} (h : ∀ a, u.read words ≠ .ok a) (s : Session)
    (f : Arguments → Act Unit) : ∃ ending log, (arguments u words >>= f).outcome s = (.error ending, { s with log }) := by
  cases hr : u.read words with
  | ok a => exact absurd hr (h a)
  | error e =>
    rw [arguments, hr]
    cases e with
    | help => exact ⟨.exit 0, s.log, rfl⟩
    | error e => exact ⟨.exit 2, _, rfl⟩

end Act

namespace LevelCompiler

/-- The level in a file is read and compiled without a single issue. -/
def Clean (t : FileTree) (input : String) (c : Level.Compiled) : Prop :=
  ∃ level, (Level.load ⟨input, t.isFile, t.linewiseText⟩).Yields (some level) ∧ (Level.compile level).Yields c

theorem readInput_of_not_clean {input : String} {s : Session} (h : ∀ c, ¬Clean s.tree input c) :
    ∃ ending log, (readInput input).outcome s = (.error ending, { s with log }) ∧ ending ≠ .exit 0 := by
  rw [readInput, Act.outcome_bind_of_ends (Act.ends_tree.mpr ⟨rfl, rfl⟩)]
  split
  · rename_i b log _
    exact ⟨.crash (.level b), s.log, rfl, by simp⟩
  · rename_i c hc
    exact absurd (compileFile_eq_ok.mp hc) (h c)
  · rename_i r issues _ _
    rw [Act.outcome_bind_of_ends (Act.ends_root.mpr ⟨rfl, rfl⟩)]
    obtain ⟨log, hlog⟩ := Act.exists_ends_complain
      (f := fun i : Level.Issue => (i.diagnostic (some input)).text s.tree.rootPath) issues s
    rw [Act.outcome_bind_of_ends hlog]
    exact ⟨.exit 1, log, rfl, by simp⟩

def blobPath (root : String) (a : Arguments) (c : Level.Compiled) : String :=
  (Outputs.of root a (Directories.of root a) c.level.name).blob

theorem run_of_not_clean {words : List String} {a : Arguments} {s : Session} (ha : usage.read words = .ok a)
    (h : ∀ c, ¬Clean s.tree (a.argument.getD "") c) : Act.Spared s ((run words).outcome s) := by
  obtain ⟨ending, log, hr, hne⟩ := readInput_of_not_clean h
  refine ⟨ending, log, ?_, hne⟩
  rw [run, Act.outcome_bind_of_ends (Act.ends_arguments.mpr ⟨ha, rfl⟩)]
  exact Act.outcome_bind_of_error hr

theorem run_of_clean {words : List String} {a : Arguments} {s : Session} {c : Level.Compiled}
    (ha : usage.read words = .ok a) (h : Clean s.tree (a.argument.getD "") c) :
    Act.WroteBlob s (blobPath s.tree.rootPath a c) c.blob ((run words).outcome s) := by
  have hr : (readInput (a.argument.getD "")).Ends s c s := by
    rw [readInput, Act.ends_bind]
    refine ⟨s.tree, s, Act.ends_tree.mpr ⟨rfl, rfl⟩, ?_⟩
    rw [compileFile_eq_ok.mpr h]
    exact Act.ends_pure.mpr ⟨rfl, rfl⟩
  rw [run, Act.outcome_bind_of_ends (Act.ends_arguments.mpr ⟨ha, rfl⟩), Act.outcome_bind_of_ends hr,
    Act.outcome_bind_of_ends (Act.ends_root.mpr ⟨rfl, rfl⟩)]
  refine Act.Delivers.wroteBlob (P := fun out => ∃ cwd, out = plan c _ cwd)
    ((Act.delivers_forM Act.delivers_makeDirectories).andThen (delivers_writeOutputs c _)) ?_ s
  rintro _ ⟨cwd, rfl⟩
  exact ⟨_, rfl⟩

end LevelCompiler

namespace TilesetCompiler

/-- The tileset in a file is read without a single issue. -/
def Clean (t : FileTree) (input : String) (ts : LinkedTileset) : Prop :=
  ∃ source, t.linewiseText input = .ok source ∧ (Tileset.read ⟨input, t.isFile⟩ source).Yields ts

theorem outcome_failAt {α : Type} (input : String) (faults : List (Nat × Nat × String)) (s : Session) :
    ∃ log, (failAt input faults : Act α).outcome s = (.error (.exit 1), { s with log }) := by
  rw [failAt, Act.outcome_bind_of_ends (Act.ends_root.mpr ⟨rfl, rfl⟩)]
  obtain ⟨log, hlog⟩ := Act.exists_ends_complain (f := fun e : Nat × Nat × String =>
    Path.absolute s.tree.rootPath input ++ ":" ++ toString e.1 ++ ":" ++ toString e.2.1 ++ ": error: " ++ e.2.2) faults s
  exact ⟨log, Act.outcome_bind_of_ends hlog⟩

theorem readInput_of_not_clean {input : String} {s : Session} (h : ∀ ts, ¬Clean s.tree input ts) :
    ∃ log, (readInput input).outcome s = (.error (.exit 1), { s with log }) := by
  rw [readInput, Act.outcome_bind_of_ends (Act.ends_tree.mpr ⟨rfl, rfl⟩)]
  split
  · exact outcome_failAt _ _ s
  · rename_i source hs
    split
    · rename_i ts hts
      exact absurd ⟨source, hs, hts⟩ (h ts)
    · exact outcome_failAt _ _ s
    · exact outcome_failAt _ _ s
    · exact outcome_failAt _ _ s

theorem run_of_not_clean {words : List String} {a : Arguments} {s : Session} (ha : usage.read words = .ok a)
    (h : ∀ ts, ¬Clean s.tree (a.argument.getD "") ts) : Act.Spared s ((run words).outcome s) := by
  obtain ⟨log, hr⟩ := readInput_of_not_clean h
  refine ⟨.exit 1, log, ?_, by simp⟩
  rw [run, Act.outcome_bind_of_ends (Act.ends_arguments.mpr ⟨ha, rfl⟩)]
  exact Act.outcome_bind_of_error hr

theorem run_of_clean {words : List String} {a : Arguments} {s : Session} {ts : LinkedTileset}
    (ha : usage.read words = .ok a) (h : Clean s.tree (a.argument.getD "") ts) :
    Act.WroteBlob s (Outputs.of s.tree.rootPath a ts.toTileset).blob (Tileset.blob ts.toTileset)
      ((run words).outcome s) := by
  obtain ⟨source, hs, hts⟩ := h
  have hts : (Tileset.read ⟨a.argument.getD "", s.tree.isFile⟩ source).run .collecting = (.ok ts, []) := hts
  have hr : (readInput (a.argument.getD "")).Ends s ts s := by
    rw [readInput, Act.ends_bind]
    refine ⟨s.tree, s, Act.ends_tree.mpr ⟨rfl, rfl⟩, ?_⟩
    rw [hs]
    dsimp only
    rw [hts]
    exact Act.ends_pure.mpr ⟨rfl, rfl⟩
  rw [run, Act.outcome_bind_of_ends (Act.ends_arguments.mpr ⟨ha, rfl⟩), Act.outcome_bind_of_ends hr,
    Act.outcome_bind_of_ends (Act.ends_root.mpr ⟨rfl, rfl⟩)]
  refine (delivers_writeOutputs (a.argument.getD "") ts _).wroteBlob ?_ s
  rintro _ ⟨cwd, charset, rfl⟩
  exact ⟨_, rfl⟩

end TilesetCompiler

/-- A run of a compiler on an input with anything wrong does not end well and leaves every file and directory as it was.
Whatever a run changes, it writes the blob first, which is the one compiled from an input without a single issue. -/
theorem failed_compiles_spare_files (words : List String) (s : Session) :
    Act.Careful s (LevelCompiler.usage.read words) (fun a path blob =>
        ∃ c, LevelCompiler.Clean s.tree (a.argument.getD "") c ∧
          path = LevelCompiler.blobPath s.tree.rootPath a c ∧ blob = c.blob)
      ((LevelCompiler.run words).outcome s) ∧
    Act.Careful s (TilesetCompiler.usage.read words) (fun a path blob =>
        ∃ ts, TilesetCompiler.Clean s.tree (a.argument.getD "") ts ∧
          path = (TilesetCompiler.Outputs.of s.tree.rootPath a ts.toTileset).blob ∧ blob = Tileset.blob ts.toTileset)
      ((TilesetCompiler.run words).outcome s) := by
  constructor
  · refine Act.careful_of_runs (fun h => Act.outcome_arguments_of_error h s _) ?_ ?_
    · intro a ha hno
      exact LevelCompiler.run_of_not_clean ha fun c hc => hno _ _ ⟨c, hc, rfl, rfl⟩
    · rintro a path blob ha ⟨c, hc, rfl, rfl⟩
      exact LevelCompiler.run_of_clean ha hc
  · refine Act.careful_of_runs (fun h => Act.outcome_arguments_of_error h s _) ?_ ?_
    · intro a ha hno
      exact TilesetCompiler.run_of_not_clean ha fun ts hts => hno _ _ ⟨ts, hts, rfl, rfl⟩
    · rintro a path blob ha ⟨ts, hts, rfl, rfl⟩
      exact TilesetCompiler.run_of_clean ha hts

end EscapeRoom
