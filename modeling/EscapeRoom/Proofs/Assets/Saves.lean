import EscapeRoom.Proofs.Assets.Records

/-!
# Saves

An editor saves a file: its content is replaced, and it gets a time. Saving a file that is there changes nothing
else. So it can happen between any two steps of a compiler, which goes on as before.
-/

namespace EscapeRoom

open EscapeRoom.Path

namespace FileTree

variable {t : FileTree} {place : Place} {path : String}

theorem Keeps.refl (hp : t.locate path = .ok place) : t.Keeps t path :=
  ⟨place, hp, hp, rfl, fun _ => rfl⟩

theorem Keeps.trans {t' t'' : FileTree} (h : t.Keeps t' path) (h' : t'.Keeps t'' path) : t.Keeps t'' path := by
  obtain ⟨place, hpl, hpl', hf, hdi⟩ := h
  obtain ⟨place', hp, hp', hf', hd'⟩ := h'
  obtain rfl := Except.ok.inj (hpl'.symm.trans hp)
  refine ⟨place, hpl, hp', hf'.trans hf, fun hn => ?_⟩
  rw [hd' (hf.trans hn), hdi hn]

theorem Keeps.bytes {t' : FileTree} (h : t.Keeps t' path) : t'.bytes path = t.bytes path := by
  obtain ⟨place, hp, hp', hf, hdi⟩ := h
  unfold FileTree.bytes
  rw [hp, hp']
  dsimp only
  rw [hf]
  cases ht : t.fileAt? place with
  | some file => rfl
  | none => simp only [hdi ht]

def saved (t : FileTree) (place : Place) (content : Content) (time : Nat) : FileTree :=
  (t.putAt place content).setModified place time

theorem grows_saved (t : FileTree) (place : Place) (content : Content) (time : Nat) :
    t.Grows (t.saved place content time) :=
  ⟨rfl, fun _ hd => hd⟩

theorem fileAt?_saved (t : FileTree) (place : Place) (content : Content) (time : Nat) (p : Place) :
    (t.saved place content time).fileAt? p = if p = place then some ⟨content, time⟩ else t.fileAt? p := by
  rw [saved, fileAt?_setModified, fileAt?_putAt]
  split
  · rename_i heq
    rw [if_pos heq.symm]
    rfl
  · rename_i hne
    rw [if_neg (Ne.symm hne)]

theorem fileAt?_saved_self (t : FileTree) (place : Place) (content : Content) (time : Nat) :
    (t.saved place content time).fileAt? place = some ⟨content, time⟩ := by
  rw [fileAt?_saved, if_pos rfl]

theorem later_saved (t : FileTree) (place : Place) (content : Content) (time : Nat) :
    t.Later (t.saved place content time) := by
  refine ⟨grows_saved t place content time, Nat.le_succ _, fun p hp => ?_⟩
  rw [fileAt?_saved]
  split
  · rfl
  · exact hp

theorem entries_saved (hf : (t.fileAt? place).isSome = true) (content : Content) (time : Nat) (p : Place) :
    (t.saved place content time).entries p = t.entries p := by
  have hmem : place ∈ t.files.keys := by
    by_contra hnot
    rw [fileAt?, Table.get?_eq_none_iff.mpr hnot] at hf
    cases hf
  have hk : (t.saved place content time).files.keys = t.files.keys := by
    rw [saved, keys_setModified, putAt, Table.keys_put, if_pos hmem]
  unfold entries
  rw [hk]
  rfl

end FileTree

namespace Assets

open FileTree

/-- A save of a file: its new content and its new time. -/
structure Save where
  path : String
  content : Content
  time : Nat

/-- The tree after a save; a file that is not there is not created. -/
def Save.apply (t : FileTree) (e : Save) : FileTree :=
  match t.locate e.path with
  | .ok place => if (t.fileAt? place).isSome then t.saved place e.content e.time else t
  | .error _ => t

theorem Save.apply_cases (t : FileTree) (e : Save) : e.apply t = t ∨
    ∃ place, t.locate e.path = .ok place ∧ (t.fileAt? place).isSome = true ∧
      e.apply t = t.saved place e.content e.time := by
  unfold Save.apply
  cases hp : t.locate e.path with
  | error _ => exact .inl rfl
  | ok place =>
    by_cases hf : (t.fileAt? place).isSome = true
    · exact .inr ⟨place, rfl, hf, if_pos hf⟩
    · exact .inl (if_neg hf)

variable {saves : List Save}

def saveAll (saves : List Save) : Act Unit :=
  modify fun s => { s with tree := saves.foldl Save.apply s.tree }

theorem adds_saves (hs : ∀ e ∈ saves, ∀ t place, FileTree.locate t e.path = .ok place → place.IsInput)
    (paths : List String) (t : FileTree) : t.Adds Place.IsInput paths (saves.foldl Save.apply t) := by
  induction saves generalizing t with
  | nil => exact .refl _ _ t
  | cons e saves ih =>
    rw [List.forall_mem_cons] at hs
    refine .trans ?_ (ih hs.2 _)
    rcases e.apply_cases t with hsa | ⟨place, hpl, hf, hsv⟩
    · rw [hsa]
      exact .refl _ _ t
    · rw [hsv]
      refine ⟨grows_saved .., Nat.le_succ _, fun p hp => .inl ?_, fun p => by rw [entries_saved hf]⟩
      rw [fileAt?_saved, if_neg]
      rintro rfl
      exact hp (hs.1 t p hpl)

theorem builds_saveAll (hs : ∀ e ∈ saves, ∀ t place, FileTree.locate t e.path = .ok place → place.IsInput)
    (root : String) : (saveAll saves).Builds Place.IsInput root [] :=
  fun s _ => ⟨adds_saves hs [] s.tree, nofun, fun _ _ _ _ hp => absurd hp (List.not_mem_nil)⟩

end Assets

end EscapeRoom
