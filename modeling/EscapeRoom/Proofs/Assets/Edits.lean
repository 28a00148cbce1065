import EscapeRoom.Proofs.Assets.Saving

/-!
# Edits between updates

Between two updates files can be touched, which changes their times, and outputs can be deleted. The inputs
stay the same, with the same outputs, and so does the cache.
-/

namespace EscapeRoom

namespace FileTree

theorem fileAt?_setModified (t : FileTree) (place : Place) (time : Nat) (p : Place) :
    (t.setModified place time).fileAt? p =
      if p = place then (t.fileAt? p).map fun file => { file with modified := time } else t.fileAt? p := by
  unfold setModified fileAt?
  dsimp only
  induction t.files with
  | nil => simp
  | cons e files ih =>
    rw [List.map_cons, Table.get?_cons, Table.get?_cons, ih]
    by_cases hp : p = place
    · subst hp
      by_cases he : e.1 = p
      · simp [he]
      · simp [he]
    · by_cases he : e.1 = place
      · simp [he, hp, Ne.symm hp]
      · simp [he, hp]

theorem keys_setModified (t : FileTree) (place : Place) (time : Nat) :
    (t.setModified place time).files.keys = t.files.keys := by
  unfold setModified Table.keys
  rw [List.map_map]
  apply List.map_congr_left
  intro e _
  rw [Function.comp_apply]
  split
  · rfl
  · rfl

theorem fileAt?_remove (t : FileTree) (place p : Place) :
    (t.remove place).fileAt? p = if p = place then none else t.fileAt? p := by
  unfold remove fileAt?
  dsimp only
  induction t.files with
  | nil => simp
  | cons e files ih =>
    rw [List.filter_cons, Table.get?_cons]
    by_cases hp : p = place
    · subst hp
      rw [if_pos rfl] at ih ⊢
      by_cases he : e.1 = p
      · simp [he, ih]
      · simp [he, Table.get?_cons, ih]
    · rw [if_neg hp] at ih ⊢
      by_cases he : e.1 = place
      · simp [he, ih, Ne.symm hp]
      · simp [he, Table.get?_cons, ih]

end FileTree

namespace Assets

variable {l : Layout} {t t' : FileTree}

/-- Between two updates, times of inputs and outputs were changed and outputs were deleted. -/
structure Edited (l : Layout) (t t' : FileTree) : Prop where
  tilesets : tilesetsOf l t' = tilesetsOf l t
  levels : levelsOf l t' = levelsOf l t
  outputs : ∀ i ∈ inputs l t, i.outputs l t' = i.outputs l t
  /-- All inputs are there. -/
  present : ∀ i ∈ inputs l t, HasTime t' i.path
  /-- An output is there or not, with a time of zero in the latter case. -/
  times : ∀ i ∈ inputs l t, ∀ path ∈ i.outputs l t, ∃ time, timeOf t' path = .ok time
  cache : loadCache t' l.cache = loadCache t l.cache

theorem Edited.inputs_eq (h : Edited l t t') : inputs l t' = inputs l t := by
  rw [inputs, inputs, h.tilesets, h.levels]

theorem Edited.refl (hp : ∀ i ∈ inputs l t, HasTime t i.path)
    (ho : ∀ i ∈ inputs l t, ∀ path ∈ i.outputs l t, HasTime t path) : Edited l t t := by
  refine ⟨rfl, rfl, fun _ _ => rfl, hp, fun i hi path hpa => ?_, rfl⟩
  obtain ⟨time, ht, -⟩ := ho i hi path hpa
  exact ⟨time, ht⟩

theorem loadCache_of_error {path : String} {e : FileError} (h : t.locate path = .error e) :
    loadCache t path = .obj [] := by
  unfold loadCache FileTree.json FileTree.text FileTree.bytes
  rw [h]
  rfl

end Assets

end EscapeRoom
