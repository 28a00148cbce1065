import EscapeRoom.Proofs.Numbering
import EscapeRoom.Proofs.Sessions

/-!
# Written files

Writing and making directories only adds to a file tree, so that a path keeps the place that it leads to.
What a command writes is told by the paths of the files: these files are new, and all others are as they
were.
-/

namespace EscapeRoom.FileTree

variable {t t' t'' : FileTree} {here place : Place} {path : String} {names : List String}

/-- A tree with the same root and at least the same directories. -/
structure Grows (t t' : FileTree) : Prop where
  root : t'.root = t.root
  directories : ∀ p, t.isDirectoryAt p = true → t'.isDirectoryAt p = true

theorem Grows.refl (t : FileTree) : t.Grows t :=
  ⟨rfl, fun _ h => h⟩

theorem Grows.trans (h : t.Grows t') (h' : t'.Grows t'') : t.Grows t'' :=
  ⟨h'.root.trans h.root, fun p hp => h'.directories p (h.directories p hp)⟩

theorem Grows.walk (h : t.Grows t') (hw : t.walk here names = .ok place) : t'.walk here names = .ok place := by
  induction names generalizing here with
  | nil => exact hw
  | cons name rest ih =>
    rw [FileTree.walk] at hw ⊢
    split at hw
    · cases hw
    · rename_i hh
      have hh' : t'.isDirectoryAt here = true := h.directories here (by simpa using hh)
      rw [hh']
      simp only [Bool.not_true, Bool.false_eq_true, if_false]
      split at hw
      · rename_i hup
        rw [if_pos hup]
        exact ih hw
      · rename_i hup
        rw [if_neg hup]
        exact ih hw

theorem filter_steps (path : String) : (steps path).filter (· != ".") = Path.components path := by
  rw [steps, Path.components, List.filter_filter]
  exact List.filter_congr fun name _ => Bool.and_comm _ _

def start (t : FileTree) (path : String) : Place :=
  if Path.isAbsolute path then [] else t.root

theorem Grows.start (h : t.Grows t') (path : String) : t'.start path = t.start path := by
  rw [FileTree.start, h.root, FileTree.start]

theorem walk_of_locate (h : t.locate path = .ok place) :
    t.walk (t.start path) (Path.components path) = .ok place := by
  unfold locate at h
  rw [filter_steps] at h
  split at h
  · cases h
  · split at h
    · cases h
    · rename_i place' hw
      dsimp only at h
      split at h
      · cases h
      · rwa [Except.ok.inj h] at hw

theorem ne_empty_of_locate (h : t.locate path = .ok place) : path ≠ "" := by
  rintro rfl
  cases h

theorem locate_of_walk (hne : path ≠ "") (hw : t.walk (t.start path) (Path.components path) = .ok place)
    (hp : t.isDirectoryAt place = true) : t.locate path = .ok place := by
  unfold start at hw
  unfold locate
  rw [filter_steps, hw]
  simp [hne, hp]

theorem walk_append (t : FileTree) (here : Place) (names names' : List String) :
    t.walk here (names ++ names') = t.walk here names >>= fun place => t.walk place names' := by
  induction names generalizing here with
  | nil => rfl
  | cons name names ih =>
    rw [List.cons_append, FileTree.walk, FileTree.walk]
    split
    · rfl
    · split
      · exact ih _
      · exact ih _

theorem eq_append_of_walk (h : t.walk here names = .ok place) (hup : ".." ∉ names) : place = here ++ names := by
  induction names generalizing here with
  | nil => simpa [FileTree.walk] using h.symm
  | cons name names ih =>
    rw [List.mem_cons, not_or] at hup
    rw [FileTree.walk] at h
    split at h
    · cases h
    · rw [if_neg (Ne.symm hup.1)] at h
      rw [ih h hup.2, List.append_assoc, List.singleton_append]

theorem isDirectoryAt_of_walk (h : t.walk here names = .ok place)
    (hp : t.isDirectoryAt place = true) : t.isDirectoryAt here = true := by
  cases names with
  | nil =>
    obtain rfl := Except.ok.inj h
    exact hp
  | cons name names =>
    rw [FileTree.walk] at h
    split at h
    · cases h
    · rename_i hh
      simpa using hh

theorem Grows.locate (h : t.Grows t') (hl : t.locate path = .ok place) : t'.locate path = .ok place := by
  have hw := walk_of_locate hl
  have hw' := h.walk hw
  unfold FileTree.start at hw hw'
  unfold FileTree.locate at hl ⊢
  rw [filter_steps] at hl ⊢
  rw [hw] at hl
  rw [h.root, hw']
  split at hl
  · cases hl
  · rename_i he
    rw [if_neg he]
    dsimp only at hl ⊢
    split at hl
    · cases hl
    · rename_i hwa
      rw [if_neg]
      intro hwa'
      rw [Bool.and_eq_true, Bool.not_eq_true'] at hwa'
      apply hwa
      rw [Bool.and_eq_true, Bool.not_eq_true']
      refine ⟨hwa'.1, ?_⟩
      cases hd : t.isDirectoryAt place with
      | false => rfl
      | true => rw [h.directories place hd] at hwa'; exact absurd hwa'.2 (by simp)

@[simp] theorem fileAt?_putAt (content : Content) (p : Place) :
    (t.putAt place content).fileAt? p = if place = p then some ⟨content, t.clock⟩ else t.fileAt? p :=
  Table.get?_put t.files place ⟨content, t.clock⟩ p

theorem grows_putAt (t : FileTree) (place : Place) (content : Content) : t.Grows (t.putAt place content) :=
  ⟨rfl, fun _ h => h⟩

theorem write_eq_ok {content : Content} : t.write path content = .ok t' ↔
    ∃ place, t.locate path = .ok place ∧ t.isDirectoryAt place = false ∧ t.fileAt? place.dropLast = none ∧
      t.isDirectoryAt place.dropLast = true ∧ t' = t.putAt place content := by
  unfold write
  cases t.locate path with
  | error e => simp
  | ok place =>
    cases hp : t.isDirectoryAt place with
    | true => simp [hp]
    | false =>
      cases hf : t.fileAt? place.dropLast with
      | some file => simp [hp, hf]
      | none =>
        cases hpa : t.isDirectoryAt place.dropLast with
        | false => simp [hp, hf, hpa]
        | true =>
          simp only [hp, hf, hpa, Bool.false_eq_true, if_false, Option.isSome_none, Bool.not_true]
          constructor
          · intro h
            exact ⟨place, rfl, hp, hf, hpa, (Except.ok.inj h).symm⟩
          · rintro ⟨place', h, -, -, -, rfl⟩
            rw [Except.ok.inj h]

theorem isDirectoryAt_addDirectory (t : FileTree) (place p : Place) :
    (t.addDirectory place).isDirectoryAt p = (t.isDirectoryAt p || decide (p = place)) := by
  unfold addDirectory
  split
  · rename_i hpl
    by_cases hp : p = place
    · simp [hp, hpl]
    · simp [hp]
  · simp [isDirectoryAt, Bool.or_assoc, eq_comm]

@[simp] theorem files_addDirectory (t : FileTree) (place : Place) : (t.addDirectory place).files = t.files := by
  unfold addDirectory
  split
  · rfl
  · rfl

@[simp] theorem clock_addDirectory (t : FileTree) (place : Place) : (t.addDirectory place).clock = t.clock := by
  unfold addDirectory
  split
  · rfl
  · rfl

@[simp] theorem root_addDirectory (t : FileTree) (place : Place) : (t.addDirectory place).root = t.root := by
  unfold addDirectory
  split
  · rfl
  · rfl

theorem grows_addDirectory (t : FileTree) (place : Place) : t.Grows (t.addDirectory place) := by
  refine ⟨root_addDirectory t place, fun p hp => ?_⟩
  rw [isDirectoryAt_addDirectory, hp, Bool.true_or]

def addEach (t : FileTree) (places : List Place) : FileTree :=
  places.foldl addDirectory t

@[simp] theorem addEach_cons (t : FileTree) (place : Place) (places : List Place) :
    t.addEach (place :: places) = (t.addDirectory place).addEach places := rfl

theorem isDirectoryAt_addEach (t : FileTree) (places : List Place) (p : Place) :
    (t.addEach places).isDirectoryAt p = (t.isDirectoryAt p || decide (p ∈ places)) := by
  induction places generalizing t with
  | nil => simp [addEach]
  | cons place places ih =>
    rw [addEach_cons, ih, isDirectoryAt_addDirectory]
    simp [Bool.or_assoc]

@[simp] theorem files_addEach (t : FileTree) (places : List Place) : (t.addEach places).files = t.files := by
  induction places generalizing t with
  | nil => rfl
  | cons place places ih => rw [addEach_cons, ih, files_addDirectory]

@[simp] theorem clock_addEach (t : FileTree) (places : List Place) : (t.addEach places).clock = t.clock := by
  induction places generalizing t with
  | nil => rfl
  | cons place places ih => rw [addEach_cons, ih, clock_addDirectory]

@[simp] theorem root_addEach (t : FileTree) (places : List Place) : (t.addEach places).root = t.root := by
  induction places generalizing t with
  | nil => rfl
  | cons place places ih => rw [addEach_cons, ih, root_addDirectory]

@[simp] theorem fileAt?_addEach (t : FileTree) (places : List Place) (p : Place) :
    (t.addEach places).fileAt? p = t.fileAt? p := by
  rw [fileAt?, files_addEach, fileAt?]

theorem grows_addEach (t : FileTree) (places : List Place) : t.Grows (t.addEach places) := by
  refine ⟨root_addEach t places, fun p hp => ?_⟩
  rw [isDirectoryAt_addEach, hp, Bool.true_or]

/-- The places that names lead through from a directory. -/
def trail (here : Place) : List String → List Place
  | [] => []
  | name :: rest =>
    let next := if name = ".." then here.dropLast else here ++ [name]
    next :: trail next rest

theorem makeAlong_eq_ok : t.makeAlong here names = .ok t' ↔
    (∀ p ∈ trail here names, t.fileAt? p = none) ∧ t' = t.addEach (trail here names) := by
  induction names generalizing t here with
  | nil => simp [makeAlong, trail, addEach, eq_comm]
  | cons name rest ih =>
    rw [makeAlong, trail]
    generalize (if name = ".." then List.dropLast here else here ++ [name]) = next
    cases hf : t.fileAt? next with
    | some file => simp [hf]
    | none =>
      have hs : ∀ p, (t.addDirectory next).fileAt? p = t.fileAt? p := by
        intro p
        rw [fileAt?, files_addDirectory, fileAt?]
      simp [ih, hs, hf]

theorem makeDirectories_eq_ok : t.makeDirectories path = .ok t' ↔ path ≠ "" ∧
    (∀ p ∈ trail (t.start path) (Path.components path), t.fileAt? p = none) ∧
    t' = t.addEach (trail (t.start path) (Path.components path)) := by
  rw [makeDirectories, ← start, makeAlong_eq_ok.symm]
  by_cases h : path = ""
  · simp [h]
  · simp [h]

theorem addEach_append (t : FileTree) (places places' : List Place) :
    t.addEach (places ++ places') = (t.addEach places).addEach places' :=
  List.foldl_append

theorem addEach_eq_self {places : List Place} (h : ∀ p ∈ places, t.isDirectoryAt p = true) :
    t.addEach places = t := by
  induction places with
  | nil => rfl
  | cons place places ih =>
    rw [List.forall_mem_cons] at h
    rw [addEach_cons, addDirectory, if_pos h.1, ih h.2]

theorem trail_append (h : t.walk here names = .ok place) (names' : List String) :
    trail here (names ++ names') = trail here names ++ trail place names' := by
  induction names generalizing here with
  | nil =>
    obtain rfl := Except.ok.inj h
    rfl
  | cons name names ih =>
    rw [FileTree.walk] at h
    split at h
    · cases h
    · rw [List.cons_append, trail, trail]
      split at h
      · rename_i hup
        rw [if_pos hup, ih h]
        rfl
      · rename_i hup
        rw [if_neg hup, ih h]
        rfl

theorem isDirectoryAt_of_mem_trail (h : t.walk here names = .ok place)
    (hp : t.isDirectoryAt place = true) : ∀ p ∈ trail here names, t.isDirectoryAt p = true := by
  induction names generalizing here with
  | nil => simp [trail]
  | cons name names ih =>
    rw [FileTree.walk] at h
    split at h
    · cases h
    · rw [trail, List.forall_mem_cons]
      split at h
      · rename_i hup
        rw [if_pos hup]
        exact ⟨isDirectoryAt_of_walk h hp, ih h⟩
      · rename_i hup
        rw [if_neg hup]
        exact ⟨isDirectoryAt_of_walk h hp, ih h⟩

/-- Between two trees exactly the files with the given paths were written. -/
structure Writes (t t' : FileTree) (paths : List String) : Prop where
  grows : t.Grows t'
  clock : t'.clock = t.clock + paths.length
  written : ∀ path ∈ paths, ∃ place file, t'.locate path = .ok place ∧ t'.fileAt? place = some file ∧
    t.clock ≤ file.modified ∧ file.modified < t'.clock
  others : ∀ place, (∀ path ∈ paths, t'.locate path ≠ .ok place) → t'.fileAt? place = t.fileAt? place

theorem Writes.refl (t : FileTree) : t.Writes t [] :=
  ⟨.refl t, rfl, by simp, fun _ _ => rfl⟩

theorem Writes.trans {paths paths' : List String} (h : t.Writes t' paths) (h' : t'.Writes t'' paths') :
    t.Writes t'' (paths ++ paths') := by
  have hc : t''.clock = t.clock + (paths ++ paths').length := by
    rw [h'.clock, h.clock, List.length_append, Nat.add_assoc]
  refine ⟨h.grows.trans h'.grows, hc, ?_, ?_⟩
  · intro path hp
    rcases List.mem_append.mp hp with hp | hp
    · obtain ⟨place, file, hpl, hf, hnew, hold⟩ := h.written path hp
      by_cases ha : ∃ path' ∈ paths', t''.locate path' = .ok place
      · obtain ⟨path', hp', hpl'⟩ := ha
        obtain ⟨place', file', hs, hf', hn', ho'⟩ := h'.written path' hp'
        obtain rfl := Except.ok.inj (hpl'.symm.trans hs)
        have hl := h.clock
        exact ⟨place, file', h'.grows.locate hpl, hf', by omega, ho'⟩
      · have hk : t''.fileAt? place = t'.fileAt? place := by
          apply h'.others
          intro path' hp' hpl'
          exact ha ⟨path', hp', hpl'⟩
        have hl := h'.clock
        exact ⟨place, file, h'.grows.locate hpl, hk.trans hf, hnew, by omega⟩
    · obtain ⟨place, file, hpl, hf, hnew, hold⟩ := h'.written path hp
      have hl := h.clock
      exact ⟨place, file, hpl, hf, by omega, hold⟩
  · intro place hpl
    rw [h'.others place, h.others place]
    · intro path hp hlo
      exact hpl path (List.mem_append_left _ hp) (h'.grows.locate hlo)
    · intro path hp
      exact hpl path (List.mem_append_right _ hp)

theorem Writes.perm {paths paths' : List String} (h : t.Writes t' paths) (hp : paths.Perm paths') :
    t.Writes t' paths' := by
  refine ⟨h.grows, hp.length_eq ▸ h.clock, ?_, ?_⟩
  · intro path hpa
    exact h.written path (hp.mem_iff.mpr hpa)
  · intro place hpl
    apply h.others
    intro path hpa
    exact hpl path (hp.mem_iff.mp hpa)

theorem writes_of_write {content : Content} (h : t.write path content = .ok t') : t.Writes t' [path] := by
  obtain ⟨place, hp, -, -, -, rfl⟩ := write_eq_ok.mp h
  have hg := grows_putAt t place content
  refine ⟨hg, rfl, ?_, ?_⟩
  · intro path' hp'
    rw [List.mem_singleton] at hp'
    subst hp'
    refine ⟨place, ⟨content, t.clock⟩, hg.locate hp, ?_, Nat.le_refl _, Nat.lt_succ_self _⟩
    rw [fileAt?_putAt, if_pos rfl]
  · intro place' hpl'
    rw [fileAt?_putAt, if_neg]
    rintro rfl
    exact hpl' path (List.mem_singleton.mpr rfl) (hg.locate hp)

theorem writes_of_makeDirectories (h : t.makeDirectories path = .ok t') : t.Writes t' [] := by
  obtain ⟨-, -, rfl⟩ := makeDirectories_eq_ok.mp h
  exact ⟨grows_addEach t _, by simp, by simp, by simp⟩

end EscapeRoom.FileTree
