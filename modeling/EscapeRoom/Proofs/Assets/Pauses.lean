import Mathlib.Data.List.TakeWhile
import EscapeRoom.Proofs.Assets.Saving
import EscapeRoom.Proofs.Compilers

/-!
# Compilers step by step

A compiler reads its input, and then takes steps that make directories or write one file each. However it
ends, the files that have changed are outputs with new times, and the names of inputs are those that were
there before. Others may act between the steps, as long as they only change files that the compiler has
nothing to do with.
-/

namespace EscapeRoom

namespace Path

variable {a name : String}

theorem components_slashes (a : String) (n : Nat) :
    components (a ++ String.ofList (List.replicate n '/')) = components a := by
  induction n generalizing a with
  | zero => simp
  | succ n ih =>
    have hc : a ++ String.ofList (List.replicate (n + 1) '/') = a ++ "/" ++ String.ofList (List.replicate n '/') := by
      apply String.toList_injective
      simp [List.replicate_succ]
    rw [hc, ih, ← String.append_empty (s := a ++ "/"), components_append_slash, components_empty, List.append_nil]

theorem exists_slashes (a : String) : ∃ n,
    a = String.ofList (a.toList.reverse.dropWhile (· == '/')).reverse ++ String.ofList (List.replicate n '/') := by
  have ht : a.toList.reverse.takeWhile (· == '/') =
      List.replicate (a.toList.reverse.takeWhile (· == '/')).length '/' := by
    apply List.eq_replicate_of_mem
    intro c hc
    simpa using List.mem_takeWhile_imp hc
  refine ⟨(a.toList.reverse.takeWhile (· == '/')).length, String.toList_injective ?_⟩
  rw [String.toList_append, String.toList_ofList, String.toList_ofList, ← List.reverse_replicate, ← ht,
    ← List.reverse_append, List.takeWhile_append_dropWhile, List.reverse_reverse]

theorem directory_spec (h : '/' ∉ name.toList) : components (directory (a ++ "/" ++ name)) = components a ∧
    isAbsolute (directory (a ++ "/" ++ name)) = isAbsolute (a ++ "/") := by
  have hs : ∀ c ∈ name.toList.reverse, (c != '/') = true := by
    intro c hc
    rw [bne_iff_ne]
    rintro rfl
    exact h (List.mem_reverse.mp hc)
  have hh : (a ++ "/" ++ name).toList.reverse.dropWhile (· != '/') = '/' :: a.toList.reverse := by
    have hap : (a ++ "/" ++ name).toList.reverse = name.toList.reverse ++ '/' :: a.toList.reverse := by simp
    rw [hap, List.dropWhile_append_of_pos hs, List.dropWhile_cons_of_neg (by decide)]
  unfold directory
  rw [hh]
  dsimp only
  rw [List.dropWhile_cons_of_pos (by decide)]
  split
  · have hsa : String.ofList ('/' :: a.toList.reverse).reverse = a ++ "/" := by
      apply String.toList_injective
      simp
    rw [hsa]
    exact ⟨components_slashes a 1, rfl⟩
  · rename_i hne
    obtain ⟨n, ha⟩ := exists_slashes a
    generalize hf : String.ofList (a.toList.reverse.dropWhile (· == '/')).reverse = front at ha ⊢
    have hf : front ≠ "" := by
      rintro rfl
      have hnil := congrArg String.toList hf
      rw [String.toList_ofList, String.toList_empty, List.reverse_eq_nil_iff] at hnil
      exact hne (by rw [hnil]; rfl)
    rw [ha, String.append_assoc, isAbsolute_append hf, components_slashes]
    exact ⟨rfl, rfl⟩

end Path

namespace FileTree

variable {t t' t'' : FileTree} {others : Place → Prop} {paths paths' : List String} {path root : String}
  {here place : Place}

def isInputName (name : String) : Bool :=
  Glob.matchName "*.tset" name || Glob.matchName "*.lvl" name

/-- Between two trees, some of the files with the given paths were written, each with a new time, and no input
appeared. Nothing is said about places that others have changed. -/
structure Adds (others : Place → Prop) (paths : List String) (t t' : FileTree) : Prop where
  grows : t.Grows t'
  clock : t.clock ≤ t'.clock
  files : ∀ place, ¬ others place → t'.fileAt? place = t.fileAt? place ∨
    (∃ path ∈ paths, t'.locate path = .ok place) ∧
      ∃ file, t'.fileAt? place = some file ∧ t.clock ≤ file.modified ∧ file.modified < t'.clock
  names : ∀ place, (t'.entries place).filter isInputName = (t.entries place).filter isInputName

theorem Adds.refl (others : Place → Prop) (paths : List String) (t : FileTree) : t.Adds others paths t :=
  ⟨.refl t, Nat.le_refl _, fun _ _ => .inl rfl, fun _ => rfl⟩

theorem Adds.mono (h : t.Adds others paths t') (hp : paths ⊆ paths') : t.Adds others paths' t' := by
  refine ⟨h.grows, h.clock, fun place hpl => ?_, h.names⟩
  rcases h.files place hpl with hs | ⟨⟨path, hpa, hl⟩, hnew⟩
  · exact .inl hs
  · exact .inr ⟨⟨path, hp hpa, hl⟩, hnew⟩

theorem Adds.trans (h : t.Adds others paths t') (h' : t'.Adds others paths t'') : t.Adds others paths t'' := by
  refine ⟨h.grows.trans h'.grows, Nat.le_trans h.clock h'.clock, fun place hp => ?_,
    fun place => (h'.names place).trans (h.names place)⟩
  have hc := h.clock
  have hc' := h'.clock
  rcases h'.files place hp with hs | ⟨hpa, file, hf, hnew, hold⟩
  · rcases h.files place hp with hs' | ⟨⟨path, hpa, hl⟩, file, hf, hnew, hold⟩
    · exact .inl (hs.trans hs')
    · exact .inr ⟨⟨path, hpa, h'.grows.locate hl⟩, file, hs.trans hf, hnew, by omega⟩
  · exact .inr ⟨hpa, file, hf, by omega, hold⟩

theorem adds_write {content : Content} (h : t.write path content = .ok t') (hpa : path ∈ paths)
    (hn : ∀ place name, t.locate path = .ok place → place.getLast? = some name → isInputName name = false) :
    t.Adds others paths t' := by
  obtain ⟨place, hpl, -, -, -, rfl⟩ := write_eq_ok.mp h
  have hg := grows_putAt t place content
  refine ⟨hg, Nat.le_succ _, fun p _ => ?_, filter_entries_putAt (hn place · hpl) content⟩
  rw [fileAt?_putAt]
  split
  · rename_i hp
    exact .inr ⟨⟨path, hpa, hp ▸ hg.locate hpl⟩, _, rfl, Nat.le_refl _, Nat.lt_succ_self _⟩
  · exact .inl rfl

theorem getLast?_of_mem_trail {names : List String} (hup : ".." ∉ names) (h : place ∈ trail here names) :
    ∃ name ∈ names, place.getLast? = some name := by
  induction names generalizing here with
  | nil => cases h
  | cons name names ih =>
    rw [List.mem_cons, not_or] at hup
    rw [trail, if_neg (Ne.symm hup.1), List.mem_cons] at h
    rcases h with rfl | h
    · exact ⟨name, List.mem_cons_self .., by simp⟩
    · obtain ⟨name', hn', hl⟩ := ih hup.2 h
      exact ⟨name', List.mem_cons_of_mem _ hn', hl⟩

theorem adds_addEach {places : List Place}
    (h : ∀ place ∈ places, ∀ name, place.getLast? = some name → isInputName name = false) :
    t.Adds others paths (t.addEach places) := by
  refine ⟨grows_addEach t places, by simp, fun place _ => .inl (fileAt?_addEach t places place), ?_⟩
  induction places generalizing t with
  | nil => exact fun _ => rfl
  | cons place places ih =>
    rw [List.forall_mem_cons] at h
    intro p
    rw [addEach_cons, ih h.2, filter_entries_addDirectory h.1]

/-- Directories below the root of a project that have names of their own. -/
structure IsBelow (root : String) (path : String) : Prop where
  absolute : Path.isAbsolute path = Path.isAbsolute root
  below : ∃ names, Path.components path = Path.components root ++ names ∧ ".." ∉ names ∧
    ∀ name ∈ names, isInputName name = false

theorem adds_makeDirectories (hr : t.isDirectory root = true) (hb : IsBelow root path)
    (h : t.makeDirectories path = .ok t') : t.Adds others paths t' := by
  obtain ⟨here, hh, hd⟩ := isDirectory_iff.mp hr
  obtain ⟨ha, names, hn, hup, hf⟩ := hb
  have hw := walk_of_locate hh
  have hs : t.start path = t.start root := by rw [FileTree.start, ha, FileTree.start]
  obtain ⟨-, -, rfl⟩ := makeDirectories_eq_ok.mp h
  rw [hs, hn, trail_append hw, addEach_append, addEach_eq_self (isDirectoryAt_of_mem_trail hw hd)]
  apply adds_addEach
  intro place hp name hna
  obtain ⟨name', hn', hl⟩ := getLast?_of_mem_trail hup hp
  rw [Option.some.inj (hna.symm.trans hl)]
  exact hf name' hn'

/-- There is a file that was written at a time or later, and that others leave. -/
def HasSince (others : Place → Prop) (time : Nat) (path : String) (t : FileTree) : Prop :=
  ∃ place file, t.locate path = .ok place ∧ ¬ others place ∧ t.fileAt? place = some file ∧ time ≤ file.modified

theorem HasSince.adds {time : Nat} (h : t.HasSince others time path) (ha : t.Adds others paths t')
    (ht : time ≤ t.clock) : t'.HasSince others time path := by
  obtain ⟨place, file, hp, ho, hf, hnew⟩ := h
  rcases ha.files place ho with hs | ⟨-, file', hf', hn', -⟩
  · exact ⟨place, file, ha.grows.locate hp, ho, hs.trans hf, hnew⟩
  · exact ⟨place, file', ha.grows.locate hp, ho, hf', by omega⟩

end FileTree

/-- A place with a name that ends like that of an input. -/
def Place.IsInput (place : Place) : Prop :=
  ∃ name, place.getLast? = some name ∧ ∃ c ∈ ['t', 'l'], name.toList.getLast? = some c

/-- Wherever a project is, a path in it leads to a place that is neither one of others nor that of an input. -/
def FileTree.Apart (others : Place → Prop) (root path : String) : Prop :=
  ∀ (t : FileTree) place, t.isDirectory root = true → t.locate path = .ok place →
    ¬ others place ∧ ∀ name, place.getLast? = some name → isInputName name = false

theorem FileTree.isInputName_eq_false {name : String} {c : Char} (h : name.toList.getLast? = some c)
    (hc : c ∉ ['t', 'l']) : isInputName name = false := by
  rw [isInputName, Bool.or_eq_false_iff, Bool.eq_false_iff, Bool.eq_false_iff]
  constructor
  · intro hn
    rw [Glob.getLast?_of_matchName_tset hn] at h
    exact hc (by simp [← Option.some.inj h])
  · intro hn
    rw [Glob.getLast?_of_matchName_lvl hn] at h
    exact hc (by simp [← Option.some.inj h])

namespace Act

variable {α β : Type} {others : Place → Prop} {root path : String} {paths paths' : List String} {m : Act α}

/-- However the action ends, it has at most written the given files. When it ends well, it has written all of
them, and otherwise the exit code shows it. -/
def Builds (m : Act α) (others : Place → Prop) (root : String) (paths : List String) : Prop :=
  ∀ s, s.tree.isDirectory root = true → s.tree.Adds others paths (m.outcome s).2.tree ∧
    (m.outcome s).1 ≠ .error (.exit 0) ∧
    ∀ a s', m.Ends s a s' → ∀ path ∈ paths, s'.tree.HasSince others s.tree.clock path

theorem Builds.bind {f : α → Act β} (hm : m.Builds others root paths)
    (hf : ∀ a, (f a).Builds others root paths') : (m >>= f).Builds others root (paths ++ paths') := by
  intro s hr
  obtain ⟨ha, hc, hma⟩ := hm s hr
  rcases h : m.outcome s with ⟨e | a, s'⟩
  · rw [h] at ha hc
    rw [outcome_bind_of_error h]
    refine ⟨ha.mono (List.subset_append_left _ _), fun he => hc ?_, fun b s'' hen => ?_⟩
    · rw [Except.error.inj he]
    · rw [Ends, outcome_bind_of_error h] at hen
      cases hen
  · rw [h] at ha
    obtain ⟨ha', hc', hm'⟩ := hf a s' (ha.grows.isDirectory hr)
    rw [outcome_bind_of_ends h]
    refine ⟨(ha.mono (List.subset_append_left _ _)).trans (ha'.mono (List.subset_append_right _ _)),
      hc', ?_⟩
    intro b s'' hen path hp
    rw [Ends, outcome_bind_of_ends h] at hen
    have ht : s''.tree = ((f a).outcome s').2.tree := by rw [hen]
    rcases List.mem_append.mp hp with hp | hp
    · rw [ht]
      exact (hma a s' h path hp).adds ha' ha.clock
    · obtain ⟨place, file, hpl, ho, hfi, hnew⟩ := hm' b s'' hen path hp
      exact ⟨place, file, hpl, ho, hfi, Nat.le_trans ha.clock hnew⟩

theorem Builds.perm (h : m.Builds others root paths) (hp : paths.Perm paths') : m.Builds others root paths' := by
  intro s hr
  obtain ⟨ha, hc, hm⟩ := h s hr
  exact ⟨ha.mono hp.subset, hc, fun a s' he path hpa => hm a s' he path (hp.mem_iff.mpr hpa)⟩

theorem Builds.adds {s s' : Session} {a : α} (h : m.Builds others root paths)
    (hr : s.tree.isDirectory root = true) (he : m.Ends s a s') : s.tree.Adds others paths s'.tree := by
  have ha := (h s hr).1
  rwa [he] at ha

theorem builds_of_ends (h : ∀ s, ∃ a s', m.Ends s a s' ∧ s'.tree = s.tree) : m.Builds others root [] := by
  intro s _
  obtain ⟨a, s', he, ht⟩ := h s
  rw [he, ht]
  exact ⟨.refl _ _ _, by simp, by simp⟩

theorem builds_pure (a : α) : (pure a : Act α).Builds others root [] := builds_of_ends fun s => ⟨_, s, rfl, rfl⟩

theorem builds_tree : tree.Builds others root [] := builds_of_ends fun s => ⟨_, s, rfl, rfl⟩

theorem builds_root : Act.root.Builds others root [] := builds_of_ends fun s => ⟨_, s, rfl, rfl⟩

theorem builds_print (line : String) : (print line).Builds others root [] :=
  builds_of_ends fun _ => ⟨_, _, rfl, rfl⟩

theorem builds_complain (line : String) : (complain line).Builds others root [] :=
  builds_of_ends fun _ => ⟨_, _, rfl, rfl⟩

theorem builds_exit {code : Int} (h : code ≠ 0) : (exit code : Act α).Builds others root [] := by
  intro s _
  refine ⟨.refl _ _ _, fun hc => h ?_, by simp⟩
  cases hc
  rfl

theorem builds_crash (c : Crash) : (crash c : Act α).Builds others root [] :=
  fun _ _ => ⟨.refl _ _ _, nofun, by simp⟩

theorem builds_forM {xs : List α} {f : α → Act Unit} (hf : ∀ x, (f x).Builds others root []) :
    (xs.forM f).Builds others root [] := by
  induction xs with
  | nil => exact builds_pure ()
  | cons x xs ih => exact (hf x).bind fun _ => ih

theorem builds_makeDirectories (hb : FileTree.IsBelow root path) :
    (makeDirectories path).Builds others root [] := by
  intro s hr
  rw [makeDirectories, outcome_bind_of_ends (ends_tree.mpr ⟨rfl, rfl⟩)]
  cases h : s.tree.makeDirectories path with
  | error e => exact ⟨.refl _ _ _, (fun hc => by cases hc), by simp⟩
  | ok t => exact ⟨FileTree.adds_makeDirectories hr hb h, (fun hc => by cases hc), by simp⟩

theorem builds_of_write (ha : FileTree.Apart others root path)
    (h : ∀ s, (∃ a s' content, m.Ends s a s' ∧ s.tree.write path content = .ok s'.tree) ∨
      ∃ e s', m.outcome s = (.error e, s') ∧ e ≠ .exit 0 ∧ s'.tree = s.tree) : m.Builds others root [path] := by
  intro s hr
  rcases h s with ⟨a, s', content, hen, hw⟩ | ⟨e, s', hb, hc, hs⟩
  · have hn := fun place name hp => (ha s.tree place hr hp).2 name
    rw [hen]
    refine ⟨FileTree.adds_write hw (List.mem_singleton.mpr rfl) hn, nofun, ?_⟩
    intro b s'' he' path' hp'
    obtain ⟨rfl, rfl⟩ := hen.unique he'
    obtain ⟨place, hp, -, -, -, ht⟩ := FileTree.write_eq_ok.mp hw
    rw [List.mem_singleton.mp hp', ht]
    exact ⟨place, ⟨content, s.tree.clock⟩, (FileTree.grows_putAt _ _ _).locate hp,
      (ha s.tree place hr hp).1, by simp, Nat.le_refl _⟩
  · rw [hb, hs]
    refine ⟨.refl _ _ _, fun he => hc (Except.error.inj he), fun b s'' hen => ?_⟩
    rw [Ends, hb] at hen
    cases hen

theorem builds_write (ha : FileTree.Apart others root path) (content : Content) :
    (write path content).Builds others root [path] := by
  apply builds_of_write ha
  intro s
  cases h : s.tree.write path content with
  | ok t => exact .inl ⟨(), _, content, ends_write.mpr ⟨t, h, rfl⟩, h⟩
  | error e =>
    have htry : (tryWrite path content).Ends s (.error e) s := ends_tryWrite.mpr (.inr ⟨e, h, rfl, rfl⟩)
    refine .inr ⟨.crash (.file e path), s, ?_, by simp, rfl⟩
    rw [write, outcome_bind_of_ends htry]
    rfl

/-- Does something for each item, with a pause after each. -/
def eachPausing (pause : Nat → Act Unit) (f : α → Act Unit) : Nat → List α → Act Unit
  | _, [] => pure ()
  | n, x :: xs => do
    f x
    pause n
    eachPausing pause f (n + 1) xs

theorem eachPausing_pure (f : α → Act Unit) (n : Nat) (xs : List α) :
    eachPausing (fun _ => pure ()) f n xs = xs.forM f := by
  induction xs generalizing n with
  | nil => rfl
  | cons x xs ih => simp only [eachPausing, pure_bind, ih, List.forM_eq_forM, List.forM_cons]

theorem builds_eachPausing {pause : Nat → Act Unit} {f : α → Act Unit} {xs : List α}
    (hp : ∀ n, (pause n).Builds others root []) (hf : ∀ x ∈ xs, (f x).Builds others root []) (n : Nat) :
    (eachPausing pause f n xs).Builds others root [] := by
  induction xs generalizing n with
  | nil => exact builds_pure ()
  | cons x xs ih =>
    rw [List.forall_mem_cons] at hf
    exact hf.1.bind fun _ => (hp n).bind fun _ => ih hf.2 (n + 1)

end Act

namespace LevelCompiler

variable {o : Outputs}

/-- Writes all outputs of a level but the blob, with pauses in which others act. -/
def writeOthersPausing (pause : Nat → Act Unit) (c : Level.Compiled) (o : Outputs) (embedded : String) :
    Act Unit := do
  writeOutput "IDs header" o.ids (.ofText (Level.idsHeader c.level)) ""
  pause 6
  writeOutput "JSON file" o.summary (.ofText ((Level.summary c).pretty 2)) ""
  pause 7
  writeOutput "symbol file" o.symbols (.ofText (Level.symbolMap c)) ""
  pause 8
  writeOutput "blob header" o.blobHeader (.ofText (Level.declaration o.array)) ""
  pause 9
  writeOutput "blob C file" o.blobSource
    (.ofText (Level.blobSource (Path.fileName o.blobHeader) embedded o.array)) ""
  pause 10
  if !o.format.isEmpty then
    writeOutput "format header" o.format
      (.ofText ("// Provided by levelc.py\n" ++ Level.formatHeader)) ""
  pause 11

/-- Makes the outputs of a level that is compiled, with pauses in which others act. -/
def makePausing (pause : Nat → Act Unit) (d : Directories) (o : Outputs) (c : Level.Compiled) : Act Unit := do
  pause 0
  Act.eachPausing pause Act.makeDirectories 1 [d.assets, d.sources, d.headers, d.analysis]
  let embedded := Text.replace (Path.relative (← Act.root) o.blob (Path.directory o.blobSource)) "\\" "/"
  writeOutput "binary file" o.blob (.data c.blob) (" (" ++ toString c.blob.length ++ " bytes)")
  pause 5
  writeOthersPausing pause c o embedded

/-- The level compiler, with pauses after its input is read. -/
def runPausing (pause : Nat → Act Unit) (words : List String) : Act Unit := do
  let a ← Act.arguments usage words
  let c ← readInput (a.argument.getD "")
  let root ← Act.root
  let d := Directories.of root a
  makePausing pause d (Outputs.of root a d c.level.name) c

theorem runPausing_pure (words : List String) : runPausing (fun _ => pure ()) words = run words := by
  simp only [runPausing, makePausing, run, writeOthersPausing, writeOutputs, Act.eachPausing_pure, pure_bind,
    bind_pure_unit]

variable {others : Place → Prop} {root path : String} {pause : Nat → Act Unit}

theorem builds_writeOutput (ha : FileTree.Apart others root path) (kind : String) (content : Content)
    (note : String) : (writeOutput kind path content note).Builds others root [path] := by
  apply Act.builds_of_write ha
  intro s
  cases h : s.tree.write path content with
  | ok t =>
    have htry := Act.ends_tryWrite.mpr (.inl ⟨t, h, rfl, rfl⟩)
    exact .inl ⟨(), _, content, Act.ends_bind.mpr ⟨.ok (), _, htry, Act.ends_print.mpr rfl⟩, h⟩
  | error e =>
    have htry := Act.ends_tryWrite.mpr (.inr ⟨e, h, rfl, rfl⟩)
    let complaint := LogEntry.err ("Error writing " ++ kind ++ " " ++ path ++ ": " ++ e.message path)
    refine .inr ⟨.exit 1, { s with log := s.log ++ [complaint] }, ?_, by simp, rfl⟩
    rw [writeOutput, Act.outcome_bind_of_ends htry]
    rfl

theorem tree_of_writeOutput {kind note : String} {content : Content} {s s' : Session} {u : Unit}
    (h : (writeOutput kind path content note).Ends s u s') :
    ∃ t, s.tree.write path content = .ok t ∧ s'.tree = t := by
  simp only [writeOutput, Act.ends_bind, Act.ends_tryWrite] at h
  obtain ⟨r, s₁, ⟨t, ht, rfl, rfl⟩ | ⟨e, -, rfl, rfl⟩, h⟩ := h
  · obtain rfl := Act.ends_print.mp h
    exact ⟨t, ht, rfl⟩
  · exact (Act.not_ends_fail h).elim

theorem builds_readInput (input : String) : (readInput input).Builds others root [] := by
  refine Act.builds_tree.bind fun t => ?_
  split
  · exact Act.builds_crash _
  · exact Act.builds_pure _
  · refine Act.builds_root.bind fun _ => ?_
    exact (Act.builds_forM fun i => Act.builds_complain _).bind fun _ => Act.builds_exit (by decide)

theorem builds_writeOthersPausing (hp : ∀ n, (pause n).Builds others root []) (c : Level.Compiled)
    (hf : o.format = "") (embedded : String)
    (ha : ∀ path ∈ [o.ids, o.summary, o.symbols, o.blobHeader, o.blobSource], FileTree.Apart others root path) :
    (writeOthersPausing pause c o embedded).Builds others root
      [o.ids, o.summary, o.symbols, o.blobHeader, o.blobSource] := by
  simp only [List.forall_mem_cons] at ha
  obtain ⟨hids, hs, hsy, hbh, hbs, -⟩ := ha
  unfold writeOthersPausing
  refine (builds_writeOutput hids _ _ _).bind fun _ => (hp 6).bind fun _ => ?_
  refine (builds_writeOutput hs _ _ _).bind fun _ => (hp 7).bind fun _ => ?_
  refine (builds_writeOutput hsy _ _ _).bind fun _ => (hp 8).bind fun _ => ?_
  refine (builds_writeOutput hbh _ _ _).bind fun _ => (hp 9).bind fun _ => ?_
  refine (builds_writeOutput hbs _ _ _).bind fun _ => (hp 10).bind fun _ => ?_
  simp only [hf]
  exact hp 11

theorem builds_makePausing (hp : ∀ n, (pause n).Builds others root []) (c : Level.Compiled) {d : Directories}
    (hf : o.format = "") (hb : ∀ path ∈ [d.assets, d.sources, d.headers, d.analysis], FileTree.IsBelow root path)
    (ha : ∀ path ∈ [o.blob, o.ids, o.summary, o.symbols, o.blobHeader, o.blobSource],
      FileTree.Apart others root path) :
    (makePausing pause d o c).Builds others root
      [o.blob, o.ids, o.summary, o.symbols, o.blobHeader, o.blobSource] := by
  rw [List.forall_mem_cons] at ha
  refine (hp 0).bind fun _ => ?_
  refine (Act.builds_eachPausing hp (fun path hpa => Act.builds_makeDirectories (hb path hpa)) 1).bind
    fun _ => Act.builds_root.bind fun _ => ?_
  refine (builds_writeOutput ha.1 _ _ _).bind fun _ => (hp 5).bind fun _ => ?_
  exact builds_writeOthersPausing hp c hf _ ha.2

theorem blob_of_makePausing (hp : ∀ n, (pause n).Builds others root []) {c : Level.Compiled} {d : Directories}
    (hf : o.format = "") (hb : ∀ path ∈ [d.assets, d.sources, d.headers, d.analysis], FileTree.IsBelow root path)
    (ha : ∀ path ∈ [o.blob, o.ids, o.summary, o.symbols, o.blobHeader, o.blobSource],
      FileTree.Apart others root path)
    (ho : ∀ (t : FileTree) place, t.isDirectory root = true → t.locate o.blob = .ok place →
      ∀ path ∈ [o.ids, o.summary, o.symbols, o.blobHeader, o.blobSource], t.locate path ≠ .ok place)
    {s s' : Session} (hr : s.tree.isDirectory root = true) {u : Unit} (h : (makePausing pause d o c).Ends s u s') :
    ∃ place time, s'.tree.locate o.blob = .ok place ∧ s'.tree.fileAt? place = some ⟨.data c.blob, time⟩ ∧
      time < s'.tree.clock := by
  simp only [makePausing, Act.ends_bind, Act.ends_root] at h
  obtain ⟨u₁, s₁, h₁, u₂, s₂, h₂, r, s₃, ⟨-, rfl⟩, u₄, s₄, h₄, u₅, s₅, h₅, h₆⟩ := h
  rw [List.forall_mem_cons] at ha
  have ha₁ := (hp 0).adds hr h₁
  have hr₁ := ha₁.grows.isDirectory hr
  have ha₂ := (Act.builds_eachPausing hp
    (fun path hpa => Act.builds_makeDirectories (hb path hpa)) 1).adds hr₁ h₂
  have hr₂ := ha₂.grows.isDirectory hr₁
  obtain ⟨t, hw, ht⟩ := tree_of_writeOutput h₄
  obtain ⟨place, hpl, -, -, -, rfl⟩ := FileTree.write_eq_ok.mp hw
  have hg : s₂.tree.Grows s₄.tree := ht ▸ FileTree.grows_putAt _ _ _
  have hr₄ := hg.isDirectory hr₂
  have ha₅ := (hp 5).adds hr₄ h₅
  have ha₆ := (builds_writeOthersPausing hp c hf _ ha.2).adds (ha₅.grows.isDirectory hr₄) h₆
  have had := (ha₅.mono (List.nil_subset _)).trans ha₆
  have hp₄ := hg.locate hpl
  have hf₄ : s₄.tree.fileAt? place = some ⟨.data c.blob, s₂.tree.clock⟩ := by rw [ht]; simp
  have hc : s₂.tree.clock < s₄.tree.clock := by rw [ht]; exact Nat.lt_succ_self _
  refine ⟨place, s₂.tree.clock, had.grows.locate hp₄, ?_, Nat.lt_of_lt_of_le hc had.clock⟩
  rcases had.files place (ha.1 _ place hr₄ hp₄).1 with hs | ⟨⟨path, hpa, hl⟩, -⟩
  · rw [hs, hf₄]
  · exact absurd hl
      (ho _ place (had.grows.isDirectory hr₄) (had.grows.locate hp₄) path hpa)

end LevelCompiler

namespace TilesetCompiler

/-- Makes the outputs of a tileset, with pauses in which others act. -/
def makePausing (pause : Nat → Act Unit) (input : String) (ts : LinkedTileset) (o : Outputs) : Act Unit := do
  pause 0
  let root ← Act.root
  Act.eachPausing pause (fun path => Act.makeDirectories (Path.directory path)) 1 o.made
  let blob := Tileset.blob ts.toTileset
  Act.write o.blob (.data blob)
  Act.print ("Wrote " ++ o.blob ++ " (" ++ toString blob.length ++ " bytes)")
  pause 8
  writeLogged o.ids (Tileset.idsHeader ts.toTileset)
  pause 9
  writeLogged o.blobHeader (Tileset.blobDeclaration ts.toTileset)
  pause 10
  let embedded := Path.relative root o.blob (Path.directory o.blobSource)
  writeLogged o.blobSource (Tileset.blobDefinition ts.toTileset (Text.replace embedded "\\" "/"))
  pause 11
  if !ts.charset.isEmpty then
    let file := charsetFile (← Act.tree) input ts.charset
    writeLogged o.charsetHeader (Tileset.charsetDeclaration ts.toTileset)
    pause 12
    writeLogged o.charsetSource (Tileset.charsetDefinition ts.toTileset
      (Path.relative root file (Path.directory o.charsetSource)))
    pause 13
  if !o.listing.isEmpty then
    writeLogged o.listing (Tileset.listing ts.toTileset)
    pause 14
  if !o.summary.isEmpty then
    writeLogged o.summary ((Tileset.summary ts.toTileset
      (ts.objects.values.map Tileset.linkedObjectSummary)).pretty 2)
  pause 15

/-- The tileset compiler, with pauses after its input is read. -/
def runPausing (pause : Nat → Act Unit) (words : List String) : Act Unit := do
  let a ← Act.arguments usage words
  let input := a.argument.getD ""
  let ts ← readInput input
  makePausing pause input ts (Outputs.of (← Act.root) a ts.toTileset)

theorem runPausing_pure (words : List String) : runPausing (fun _ => pure ()) words = run words := by
  simp only [runPausing, run, makePausing, writeOutputs, Act.eachPausing_pure, pure_bind, bind_pure_unit]

variable {others : Place → Prop} {root path : String} {pause : Nat → Act Unit}

theorem builds_failAt {α : Type} (input : String) (faults : List (Nat × Nat × String)) :
    (failAt input faults : Act α).Builds others root [] := by
  refine Act.builds_root.bind fun _ => ?_
  exact (Act.builds_forM fun fault => Act.builds_complain _).bind fun _ => Act.builds_exit (by decide)

theorem builds_readInput (input : String) : (readInput input).Builds others root [] := by
  refine Act.builds_tree.bind fun t => ?_
  split
  · exact builds_failAt input _
  · split
    · exact Act.builds_pure _
    · exact builds_failAt input _
    · exact builds_failAt input _
    · exact builds_failAt input _

theorem builds_writeLogged (ha : FileTree.Apart others root path) (text : String) :
    (writeLogged path text).Builds others root [path] :=
  (Act.builds_write ha _).bind fun _ => Act.builds_print _

theorem builds_makePausing (hp : ∀ n, (pause n).Builds others root []) (input : String) (ts : LinkedTileset)
    {o : Outputs} (hl : o.listing.isEmpty = false) (hs : o.summary.isEmpty = false)
    (hm : ∀ path ∈ o.made, FileTree.IsBelow root (Path.directory path))
    (ha : ∀ path ∈ [o.blob, o.ids, o.blobHeader, o.blobSource] ++
      ((if ts.charset.isEmpty then [] else [o.charsetHeader, o.charsetSource]) ++ [o.listing, o.summary]),
      FileTree.Apart others root path) :
    (makePausing pause input ts o).Builds others root ([o.blob, o.ids, o.blobHeader, o.blobSource] ++
      ((if ts.charset.isEmpty then [] else [o.charsetHeader, o.charsetSource]) ++ [o.listing, o.summary])) := by
  rw [List.forall_mem_append, List.forall_mem_append] at ha
  obtain ⟨hf, hc, hla⟩ := ha
  simp only [List.forall_mem_cons] at hf hla
  obtain ⟨hb, hids, hbh, hbs, -⟩ := hf
  obtain ⟨hlia, hsa, -⟩ := hla
  have hend : ∀ listing summary : String, (do
      writeLogged o.listing listing
      pause 14
      writeLogged o.summary summary
      pause 15).Builds others root [o.listing, o.summary] := by
    intro listing summary
    refine (builds_writeLogged hlia _).bind fun _ => (hp 14).bind fun _ => ?_
    exact (builds_writeLogged hsa _).bind fun _ => hp 15
  unfold makePausing
  simp only [hl, hs, Bool.not_false, if_true]
  refine (hp 0).bind fun _ => Act.builds_root.bind fun r => ?_
  refine (Act.builds_eachPausing hp (fun path hpa => Act.builds_makeDirectories (hm path hpa)) 1).bind
    fun _ => ?_
  refine (Act.builds_write hb _).bind fun _ => (Act.builds_print _).bind fun _ => (hp 8).bind fun _ => ?_
  refine (builds_writeLogged hids _).bind fun _ => (hp 9).bind fun _ => ?_
  refine (builds_writeLogged hbh _).bind fun _ => (hp 10).bind fun _ => ?_
  refine (builds_writeLogged hbs _).bind fun _ => (hp 11).bind fun _ => ?_
  cases hn : ts.charset.isEmpty with
  | true => exact hend _ _
  | false =>
    simp only [hn, Bool.false_eq_true, if_false, List.forall_mem_cons] at hc
    refine Act.builds_tree.bind fun t => ?_
    refine (builds_writeLogged hc.1 _).bind fun _ => (hp 12).bind fun _ => ?_
    refine (builds_writeLogged hc.2.1 _).bind fun _ => (hp 13).bind fun _ => ?_
    exact hend _ _

end TilesetCompiler

namespace Usage

variable {u : Usage} {path blob : String}

theorem classify_of_isAbsolute (u : Usage) (h : Path.isAbsolute path = true) : path ≠ "--" ∧
    u.classify path = .ok (.plain path) := by
  constructor
  · rintro rfl
    cases h
  · unfold classify
    rw [if_pos]
    unfold Path.isAbsolute at h
    cases hcs : path.toList with
    | nil => simp [hcs] at h
    | cons c cs =>
      simp only [hcs, List.head?_cons, Option.some.injEq, decide_eq_true_eq] at h
      subst h
      rw [Text.startsWith, hcs]
      rfl

end Usage

end EscapeRoom
