import Mathlib.Data.List.Nodup
import EscapeRoom.Assets.Update
import EscapeRoom.Proofs.Files
import EscapeRoom.Proofs.Paths

/-!
# Inputs of a project

The inputs of a project are its tilesets and levels. They are listed once each, and their paths tell them
apart. An input can be told from the cache by its ending, and an output by its directory.
-/

namespace EscapeRoom

namespace Glob

variable {i : Item} {rest : List Item} {c : Char} {cs : List Char}

theorem matchItems_nil (hi : i ≠ .any) : matchItems (i :: rest) [] = false := by
  cases i with
  | any => exact absurd rfl hi
  | _ => simp [matchItems]

theorem matchItems_cons (hi : i ≠ .any) : matchItems (i :: rest) (c :: cs) = (i.takes c && matchItems rest cs) := by
  cases i with
  | any => exact absurd rfl hi
  | _ => simp [matchItems]

theorem getLast?_of_matchItems {is : List Item} (h : matchItems (is ++ [.char c]) cs = true) :
    cs.getLast? = some c := by
  have hc : ∀ {d : Char} {cs : List Char}, cs.getLast? = some c → (d :: cs).getLast? = some c := by
    intro d cs h
    rw [List.getLast?_cons, h]
    rfl
  induction is generalizing cs with
  | nil =>
    cases cs with
    | nil => simp [matchItems] at h
    | cons d cs =>
      obtain ⟨rfl, rfl⟩ : d = c ∧ cs = [] := by simpa [matchItems, Item.takes] using h
      rfl
  | cons i is ih =>
    rw [List.cons_append] at h
    by_cases hi : i = .any
    · subst hi
      induction cs with
      | nil =>
        rw [matchItems] at h
        exact ih h
      | cons d cs ihcs =>
        rw [matchItems, Bool.or_eq_true] at h
        rcases h with h | h
        · exact ih h
        · exact hc (ihcs h)
    · cases cs with
      | nil =>
        rw [matchItems_nil hi] at h
        cases h
      | cons d cs =>
        rw [matchItems_cons hi, Bool.and_eq_true] at h
        exact hc (ih h.2)

theorem getLast?_of_matchName_tset {name : String} (h : matchName "*.tset" name = true) :
    name.toList.getLast? = some 't' := by
  have hi : items "*.tset".toList = [.any, .char '.', .char 't', .char 's', .char 'e'] ++ [.char 't'] := by
    decide +kernel
  rw [matchName, hi] at h
  exact getLast?_of_matchItems h

theorem getLast?_of_matchName_lvl {name : String} (h : matchName "*.lvl" name = true) :
    name.toList.getLast? = some 'l' := by
  have hi : items "*.lvl".toList = [.any, .char '.', .char 'l', .char 'v'] ++ [.char 'l'] := by
    decide +kernel
  rw [matchName, hi] at h
  exact getLast?_of_matchItems h

end Glob

namespace FileTree

variable {t : FileTree} {directory pattern path : String} {place : Place} {c : Char}

theorem exists_of_mem_glob (hp : Glob.isPattern pattern = true) (h : path ∈ t.glob directory pattern) :
    ∃ name, Glob.matchName pattern name = true ∧ path = Path.join directory name := by
  unfold glob at h
  split at h
  · cases h
  · split at h
    · cases h
    · rw [(List.mergeSort_perm _ _).mem_iff, List.mem_eraseDups, List.mem_map] at h
      obtain ⟨name, hn, rfl⟩ := h
      exact ⟨name, (List.mem_filter.mp hn).2, rfl⟩

theorem getLast?_of_mem_glob (hp : Glob.isPattern pattern = true)
    (hl : ∀ {name}, Glob.matchName pattern name = true → name.toList.getLast? = some c)
    (h : path ∈ t.glob directory pattern) : path.toList.getLast? = some c := by
  obtain ⟨name, hn, rfl⟩ := exists_of_mem_glob hp h
  obtain ⟨front, hf⟩ := Path.suffix_join directory name
  rw [← hf, List.getLast?_append, hl hn]
  rfl

theorem nodup_eraseDups {α : Type} [BEq α] [LawfulBEq α] (xs : List α) : xs.eraseDups.Nodup := by
  induction hn : xs.length using Nat.strongRecOn generalizing xs with
  | ind n ih =>
    cases xs with
    | nil => simp
    | cons x xs =>
      have hs := List.length_filter_le (fun y => !y == x) xs
      rw [List.length_cons] at hn
      rw [List.eraseDups_cons, List.nodup_cons]
      refine ⟨?_, ih _ (by omega) _ rfl⟩
      rw [List.mem_eraseDups, List.mem_filter]
      simp

theorem nodup_glob (t : FileTree) (directory pattern : String) : (t.glob directory pattern).Nodup := by
  unfold glob
  split
  · simp
  · split
    · simp
    · split
      · exact (List.mergeSort_perm _ _).nodup_iff.mpr (nodup_eraseDups _)
      · split
        · simp
        · simp

theorem exists_place_eq (h : t.locate path = .ok place) (hl : path.toList.getLast? = some c) (hs : c ≠ '/')
    (hdot : c ≠ '.') : ∃ front name, place = front ++ [name] ∧ name.toList.getLast? = some c := by
  obtain ⟨front, name, hc, hn⟩ := Path.exists_components_eq hl hs hdot
  have hw := walk_of_locate h
  rw [hc, walk_append, except_bind_eq_ok] at hw
  obtain ⟨here, -, hw⟩ := hw
  have hup : ".." ∉ [name] := by
    rw [List.mem_singleton]
    rintro rfl
    exact hdot (by simpa using hn.symm)
  exact ⟨here, name, eq_append_of_walk hw hup, hn⟩

end FileTree

namespace Assets

open EscapeRoom.Path

inductive Input where
  | tileset (path : String)
  | level (path : String)
  deriving DecidableEq

namespace Input

def path : Input → String
  | .tileset path => path
  | .level path => path

def outputs (l : Layout) (t : FileTree) : Input → List String
  | .tileset path => tilesetOutputs t l.root path
  | .level path => levelOutputs t l.root path

def tool : Input → Tool
  | .tileset _ => .tilesetCompiler
  | .level _ => .levelCompiler

def command : Input → List String → Act Unit
  | .tileset _ => TilesetCompiler.run
  | .level _ => LevelCompiler.run

def words (l : Layout) (t : FileTree) : Input → List String
  | .tileset path => [path, "-o", (tilesetOutputs t l.root path).head?.getD ""]
  | .level path => [path]

end Input

def tilesetsOf (l : Layout) (t : FileTree) : List Input :=
  (t.glob l.tilesets "*.tset").map .tileset

def levelsOf (l : Layout) (t : FileTree) : List Input :=
  (t.glob l.levels "*.lvl").map .level

/-- The inputs of a project in the order in which they are updated. -/
def inputs (l : Layout) (t : FileTree) : List Input :=
  tilesetsOf l t ++ levelsOf l t

def fileOfLines (lines : List String) : File :=
  ⟨.data (lines.flatMap fun line => Bytes.ofAscii line ++ [10]), 5⟩

/-- Two trees with the same inputs, which have the same times and outputs. -/
structure SameInputs (l : Layout) (t t' : FileTree) : Prop where
  tilesets : tilesetsOf l t' = tilesetsOf l t
  levels : levelsOf l t' = levelsOf l t
  times : ∀ i ∈ inputs l t, timeOf t' i.path = timeOf t i.path
  outputs : ∀ i ∈ inputs l t, i.outputs l t' = i.outputs l t

instance (l : Layout) (t t' : FileTree) : Decidable (SameInputs l t t') :=
  decidable_of_iff (tilesetsOf l t' = tilesetsOf l t ∧ levelsOf l t' = levelsOf l t ∧
      (∀ i ∈ inputs l t, timeOf t' i.path = timeOf t i.path) ∧ ∀ i ∈ inputs l t, i.outputs l t' = i.outputs l t)
    ⟨fun h => ⟨h.1, h.2.1, h.2.2.1, h.2.2.2⟩, fun h => ⟨h.tilesets, h.levels, h.times, h.outputs⟩⟩

theorem SameInputs.inputs_eq {l : Layout} {t t' : FileTree} (h : SameInputs l t t') : inputs l t' = inputs l t := by
  rw [inputs, inputs, h.tilesets, h.levels]

theorem SameInputs.refl (l : Layout) (t : FileTree) : SameInputs l t t :=
  ⟨rfl, rfl, fun _ _ => rfl, fun _ _ => rfl⟩

theorem SameInputs.trans {l : Layout} {t t' t'' : FileTree} (h : SameInputs l t t') (h' : SameInputs l t' t'') :
    SameInputs l t t'' := by
  refine ⟨h'.tilesets.trans h.tilesets, h'.levels.trans h.levels, ?_, ?_⟩
  · intro i hi
    exact (h'.times i (h.inputs_eq ▸ hi)).trans (h.times i hi)
  · intro i hi
    exact (h'.outputs i (h.inputs_eq ▸ hi)).trans (h.outputs i hi)

section

variable {l : Layout} {t : FileTree} {i j : Input} {path : String}

theorem getLast?_path (h : i ∈ inputs l t) :
    (∃ path, i = .tileset path ∧ path.toList.getLast? = some 't') ∨
      ∃ path, i = .level path ∧ path.toList.getLast? = some 'l' := by
  rcases List.mem_append.mp h with h | h
  · obtain ⟨path, hp, rfl⟩ := List.mem_map.mp h
    exact .inl ⟨path, rfl, FileTree.getLast?_of_mem_glob (by decide) Glob.getLast?_of_matchName_tset hp⟩
  · obtain ⟨path, hp, rfl⟩ := List.mem_map.mp h
    exact .inr ⟨path, rfl, FileTree.getLast?_of_mem_glob (by decide) Glob.getLast?_of_matchName_lvl hp⟩

theorem eq_of_path_eq (hi : i ∈ inputs l t) (hj : j ∈ inputs l t) (h : i.path = j.path) : i = j := by
  rcases getLast?_path hi with ⟨path, rfl, hp⟩ | ⟨path, rfl, hp⟩
  · rcases getLast?_path hj with ⟨path', rfl, hp'⟩ | ⟨path', rfl, hp'⟩
    · exact congrArg Input.tileset h
    · obtain rfl : path = path' := h
      rw [hp] at hp'
      cases hp'
  · rcases getLast?_path hj with ⟨path', rfl, hp'⟩ | ⟨path', rfl, hp'⟩
    · obtain rfl : path = path' := h
      rw [hp] at hp'
      cases hp'
    · exact congrArg Input.level h

theorem nodup_inputs (l : Layout) (t : FileTree) : (inputs l t).Nodup := by
  rw [inputs, List.nodup_append]
  refine ⟨(t.nodup_glob _ _).map fun a b h => by cases h; rfl, (t.nodup_glob _ _).map fun a b h => by cases h; rfl, ?_⟩
  intro i hi j hj
  obtain ⟨path, -, rfl⟩ := List.mem_map.mp hi
  obtain ⟨path', -, rfl⟩ := List.mem_map.mp hj
  simp

end

/-- A directory of outputs, from the root of the project. -/
structure IsDirectory (directory : String) : Prop where
  relative : isAbsolute directory = false
  nonempty : directory ≠ ""
  unslashed : directory.toList.getLast? ≠ some '/'
  descending : ".." ∉ components directory
  /-- It is not the directory of the cache. -/
  generated : components directory ≠ ["build"]

instance (directory : String) : Decidable (IsDirectory directory) :=
  decidable_of_iff (isAbsolute directory = false ∧ directory ≠ "" ∧ directory.toList.getLast? ≠ some '/' ∧
      ".." ∉ components directory ∧ components directory ≠ ["build"])
    ⟨fun h => ⟨h.1, h.2.1, h.2.2.1, h.2.2.2.1, h.2.2.2.2⟩,
      fun h => ⟨h.relative, h.nonempty, h.unslashed, h.descending, h.generated⟩⟩

/-- A kind of outputs: the directory that they are in, and how their file names end. -/
structure IsKind (kind : String × String) : Prop where
  directory : IsDirectory kind.1
  ending : '/' ∉ kind.2.toList
  /-- The last letter tells an output from an input. -/
  letter : kind.2.toList.getLast?.any (! ['.', 't', 'l'].contains ·) = true

instance (kind : String × String) : Decidable (IsKind kind) :=
  decidable_of_iff (IsDirectory kind.1 ∧ '/' ∉ kind.2.toList ∧
      kind.2.toList.getLast?.any (! ['.', 't', 'l'].contains ·) = true)
    ⟨fun h => ⟨h.1, h.2.1, h.2.2⟩, fun h => ⟨h.directory, h.ending, h.letter⟩⟩

theorem isKind_of_mem_tilesetKinds {withCharset : Bool} : ∀ kind ∈ tilesetKinds withCharset, IsKind kind := by
  cases withCharset with
  | false => decide
  | true => decide

theorem isKind_of_mem_levelKinds : ∀ kind ∈ levelKinds, IsKind kind := by
  decide

theorem slash_not_mem_levelBase (name : String) : '/' ∉ (levelBase name).toList := by
  unfold levelBase
  dsimp only
  split
  · decide
  · apply Text.slash_not_mem_lower
    rw [String.toList_ofList]
    intro h
    obtain ⟨c, -, hc⟩ := List.mem_map.mp (Text.mem_of_mem_dropUnderscores h)
    split at hc
    · rename_i hl
      rw [hc] at hl
      exact absurd hl (by decide)
    · cases hc

theorem IsKind.exists_letter {kind : String × String} (h : IsKind kind) (name : String) :
    ∃ c ∉ ['.', 't', 'l'], (name ++ kind.2).toList.getLast? = some c := by
  have hl := h.letter
  rw [String.toList_append, List.getLast?_append]
  cases hc : kind.2.toList.getLast? with
  | none =>
    rw [hc] at hl
    cases hl
  | some c =>
    rw [hc] at hl
    exact ⟨c, by simpa using hl, rfl⟩

theorem IsKind.place_eq {kind : String × String} {t : FileTree} {root name : String} {here place : Place}
    (h : IsKind kind) (hn : '/' ∉ name.toList) (hr : t.locate root = .ok here)
    (hp : t.locate (join root (kind.1 ++ "/" ++ name ++ kind.2)) = .ok place) :
    place = here ++ (components kind.1 ++ [name ++ kind.2]) := by
  obtain ⟨c, hl, hc⟩ := h.exists_letter name
  have hf : ∀ dots ∈ ["", ".", ".."], name ++ kind.2 ≠ dots := by
    intro dots hdo heq
    rw [heq] at hc
    simp only [List.mem_cons, List.not_mem_nil, or_false, not_or] at hdo hl
    rcases hdo with rfl | rfl | rfl
    · cases hc
    · exact hl.1 (Option.some.inj hc).symm
    · exact hl.1 (Option.some.inj hc).symm
  have hs : '/' ∉ (name ++ kind.2).toList := by
    rw [String.toList_append, List.mem_append, not_or]
    exact ⟨hn, h.ending⟩
  have hre : isAbsolute (kind.1 ++ "/" ++ name ++ kind.2) = false := by
    rw [String.append_assoc, String.append_assoc, isAbsolute_append h.directory.nonempty, h.directory.relative]
  have hco : components (kind.1 ++ "/" ++ name ++ kind.2) = components kind.1 ++ [name ++ kind.2] := by
    rw [String.append_assoc, components_append_slash,
      components_of_name hs (hf _ (by simp)) (hf _ (by simp))]
  have hw := FileTree.walk_of_locate hp
  have hst : t.start (join root (kind.1 ++ "/" ++ name ++ kind.2)) = t.start root := by
    rw [FileTree.start, isAbsolute_join_of_relative root hre, FileTree.start]
  rw [hst, components_join hre, hco, FileTree.walk_append, FileTree.walk_of_locate hr] at hw
  apply FileTree.eq_append_of_walk hw
  rw [List.mem_append, not_or, List.mem_singleton]
  exact ⟨h.directory.descending, Ne.symm (hf _ (by simp))⟩

section

variable {l : Layout} {t : FileTree} {i : Input} {p : String} {here place : Place}

/-- The place of an output: it is not in the directory of the cache, and its name is not that of an input. -/
theorem exists_place_of_mem_outputs (hp : p ∈ i.outputs l t) (hr : t.locate l.root = .ok here)
    (hpl : t.locate p = .ok place) : ∃ directory name, place = here ++ (directory ++ [name]) ∧
      directory ≠ ["build"] ∧ ∃ c ∉ ['.', 't', 'l'], name.toList.getLast? = some c := by
  obtain ⟨kind, name, hk, hn, rfl⟩ : ∃ kind name, IsKind kind ∧ '/' ∉ name.toList ∧
      p = join l.root (kind.1 ++ "/" ++ name ++ kind.2) := by
    cases i with
    | tileset path =>
      obtain ⟨kind, hk, rfl⟩ := List.mem_map.mp hp
      exact ⟨kind, _, isKind_of_mem_tilesetKinds kind hk, slash_not_mem_stem path, rfl⟩
    | level path =>
      obtain ⟨kind, hk, rfl⟩ := List.mem_map.mp hp
      exact ⟨kind, _, isKind_of_mem_levelKinds kind hk, slash_not_mem_levelBase _, rfl⟩
  exact ⟨_, _, hk.place_eq hn hr hpl, hk.directory.generated, hk.exists_letter name⟩

theorem exists_place_of_mem_inputs (hi : i ∈ inputs l t) (hp : t.locate i.path = .ok place) :
    ∃ front name, place = front ++ [name] ∧ ∃ c ∈ ['t', 'l'], name.toList.getLast? = some c := by
  rcases getLast?_path hi with ⟨path, rfl, hl⟩ | ⟨path, rfl, hl⟩
  · obtain ⟨front, name, rfl, hn⟩ := FileTree.exists_place_eq hp hl (by decide) (by decide)
    exact ⟨front, name, rfl, 't', by simp, hn⟩
  · obtain ⟨front, name, rfl, hn⟩ := FileTree.exists_place_eq hp hl (by decide) (by decide)
    exact ⟨front, name, rfl, 'l', by simp, hn⟩

end

end Assets

end EscapeRoom
