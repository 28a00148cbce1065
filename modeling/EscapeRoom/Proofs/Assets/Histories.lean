import EscapeRoom.Proofs.Assets.Saves

/-!
# Histories of a project

Levels and tilesets of a project are saved again and again, each time with a new time, and now and then the project
is updated, with whatever result. Through all of this the saved cache stays honest. So when an update of everything
goes well, the blob of each level is what the present text of the level compiles to, with its tileset as it was when
the compiler of the level was started. If the tileset was saved since, the blob is not compiled again.
-/

namespace EscapeRoom.Assets

open EscapeRoom.Path FileTree
open Number (Double)

section Starts

variable {l : Layout} {p p' : Progress} {s s' : Session} {i : Input} {turns turns' : List Input} {a : Start}

theorem mem_startsIn_cons (h : a ∈ startsIn l p s (i :: turns)) :
    a = ⟨i, s⟩ ∧ isStale s.tree p.cache i.path (i.outputs l s.tree) = .ok true ∨
      ∃ p' s', (updateInput l p i).Ends s p' s' ∧ a ∈ startsIn l p' s' turns := by
  rw [startsIn, List.mem_append] at h
  rcases h with h | h
  · split at h
    · rename_i hs
      exact .inl ⟨List.mem_singleton.mp h, hs⟩
    · cases h
  · rcases he : (updateInput l p i).outcome s with ⟨e | p', s'⟩
    · rw [he] at h
      cases h
    · rw [he] at h
      exact .inr ⟨p', s', he, h⟩

theorem mem_startsIn_append : a ∈ startsIn l p s (turns ++ turns') ↔ a ∈ startsIn l p s turns ∨
    ∃ p' s', (turns.foldlM (updateInput l) p).Ends s p' s' ∧ a ∈ startsIn l p' s' turns' := by
  induction turns generalizing p s with
  | nil =>
    constructor
    · intro h
      exact .inr ⟨p, s, rfl, h⟩
    · rintro (h | ⟨p', s', he, h⟩)
      · cases h
      · obtain ⟨rfl, rfl⟩ := Act.ends_pure.mp he
        exact h
  | cons i turns ih =>
    constructor
    · intro h
      rcases mem_startsIn_cons h with ⟨rfl, hs⟩ | ⟨p₁, s₁, he, h⟩
      · exact .inl (mem_startsIn_of_stale hs)
      · rcases ih.mp h with h | ⟨p', s', hr, h⟩
        · exact .inl (mem_startsIn_of_ends he h)
        · exact .inr ⟨p', s', Act.ends_bind.mpr ⟨p₁, s₁, he, hr⟩, h⟩
    · rintro (h | ⟨p', s', he, h⟩)
      · rcases mem_startsIn_cons h with ⟨rfl, hs⟩ | ⟨p₁, s₁, he, h⟩
        · exact mem_startsIn_of_stale hs
        · exact mem_startsIn_of_ends he (ih.mpr (.inl h))
      · rw [List.foldlM_cons] at he
        obtain ⟨p₁, s₁, hf, hr⟩ := Act.ends_bind.mp he
        exact mem_startsIn_of_ends hf (ih.mpr (.inr ⟨p', s', hr, h⟩))

end Starts

/-- What the watcher is asked for: an update of everything, or only of what the change of a file asks for. -/
inductive Request where
  | all (changed : Option String)
  | tilesets (changed : Option String)

namespace Request

def run (l : Layout) : Request → Act Bool
  | .all changed => updateAll l changed
  | .tilesets changed => updateTilesets l changed

def tilesetsIn (l : Layout) (t : FileTree) : Request → List Input
  | .all changed => if changedWith changed ".lvl" then [] else tilesetsOf l t
  | .tilesets none => tilesetsOf l t
  | .tilesets (some path) => if path = "" then tilesetsOf l t else [.tileset (Path.tidy path)]

def levelsIn (l : Layout) (t : FileTree) : Request → List Input
  | .all changed =>
    if changedWith changed ".tset" then []
    else (levelsOf l t).filter fun i => !changedWith changed ".lvl" || some i.path = changed
  | .tilesets _ => []

theorem foldlM_tilesets (l : Layout) (paths : List String) (p : Progress) :
    (paths.map Input.tileset).foldlM (updateInput l) p = paths.foldlM (updateTileset l) p := by
  rw [List.foldlM_map]
  rfl

theorem foldlM_levels (l : Layout) (paths : List String) (f : String → Bool) (p : Progress) :
    ((paths.map Input.level).filter fun i => f i.path).foldlM (updateInput l) p =
      (paths.filter f).foldlM (updateLevel l) p := by
  have hp : (fun i : Input => f i.path) ∘ Input.level = f := rfl
  rw [List.filter_map, hp, List.foldlM_map]
  rfl

theorem tree_bind {α : Type} (m : Act α) : (Act.tree >>= fun _ => m) = m := rfl

theorem run_eq (l : Layout) (r : Request) : r.run l = do
    let t ← Act.tree
    let p ← (r.tilesetsIn l t).foldlM (updateInput l) (begun l t)
    let p ← (r.levelsIn l (← Act.tree)).foldlM (updateInput l) p
    saveCache l.cache p.cache
    return p.ok := by
  cases r with
  | all changed =>
    have hl := foldlM_levels l
    simp only [run, updateAll, tilesetsIn, levelsIn, levelsOf, tilesetsOf, begun]
    cases hlvl : changedWith changed ".lvl" with
    | false =>
      cases ht : changedWith changed ".tset" with
      | false => simp only [Bool.not_false, if_true, Bool.false_eq_true, if_false, foldlM_tilesets,
          hl _ fun path => true || decide (some path = changed)]
      | true => simp only [Bool.not_false, Bool.not_true, if_true, Bool.false_eq_true, if_false, foldlM_tilesets,
          List.foldlM_nil, pure_bind, tree_bind]
    | true =>
      cases ht : changedWith changed ".tset" with
      | false => simp only [Bool.not_false, Bool.not_true, if_true, Bool.false_eq_true, if_false,
          List.foldlM_nil, pure_bind, hl _ fun path => false || decide (some path = changed)]
      | true => simp only [Bool.not_true, if_true, Bool.false_eq_true, if_false, List.foldlM_nil, pure_bind, tree_bind]
  | tilesets changed =>
    simp only [run, updateTilesets, levelsIn, List.foldlM_nil, pure_bind, tree_bind, begun]
    congr 1
    funext t
    congr 1
    split
    · exact (foldlM_tilesets l _ _).symm
    · exact (foldlM_tilesets l _ _).symm
    · rename_i path hne
      rw [tilesetsIn, if_neg hne]
      exact (foldlM_tilesets l [_] _).symm

def starts (l : Layout) (r : Request) (s : Session) : List Start :=
  startsIn l (begun l s.tree) s (r.tilesetsIn l s.tree) ++
    match ((r.tilesetsIn l s.tree).foldlM (updateInput l) (begun l s.tree)).outcome s with
    | (.ok p', s') => startsIn l p' s' (r.levelsIn l s'.tree)
    | (.error _, _) => []

def turns (l : Layout) (t : FileTree) (r : Request) : List Input :=
  r.tilesetsIn l t ++ r.levelsIn l t

theorem tilesetsIn_all (l : Layout) (t : FileTree) : (all none).tilesetsIn l t = tilesetsOf l t := by
  rw [tilesetsIn, if_neg (by decide)]

theorem levelsIn_all (l : Layout) (t : FileTree) : (all none).levelsIn l t = levelsOf l t := by
  rw [levelsIn, if_neg (by decide), List.filter_eq_self]
  intro i _
  rfl

theorem starts_all (l : Layout) (s : Session) : (all none).starts l s = Assets.starts l s := by
  rw [starts, Assets.starts, tilesetsIn_all]
  rcases ((tilesetsOf l s.tree).foldlM (updateInput l) (begun l s.tree)).outcome s with ⟨e | p', s'⟩
  · rfl
  · simp only [levelsIn_all]

theorem turns_all (l : Layout) (t : FileTree) : (all none).turns l t = inputs l t := by
  rw [turns, tilesetsIn_all, levelsIn_all, inputs]

variable {l : Layout} {r : Request} {t t' : FileTree} {i : Input} {s s' : Session} {ok : Bool} {a : Start}

theorem mem_inputs_of_mem_levelsIn (h : i ∈ r.levelsIn l t) : i ∈ inputs l t := by
  apply List.mem_append_right
  cases r with
  | tilesets changed => cases h
  | all changed =>
    rw [levelsIn] at h
    split at h
    · cases h
    · exact (List.mem_filter.mp h).1

theorem levelsIn_worked (hl : l.Fits t) (h : Worked l t t') : r.levelsIn l t' = r.levelsIn l t := by
  cases r with
  | tilesets changed => rfl
  | all changed => rw [levelsIn, (h.lists hl).2, levelsIn]

theorem mem_starts (h : a ∈ r.starts l s) : a ∈ startsIn l (begun l s.tree) s (r.tilesetsIn l s.tree) ∨
    ∃ p₁ s₁, ((r.tilesetsIn l s.tree).foldlM (updateInput l) (begun l s.tree)).Ends s p₁ s₁ ∧
      a ∈ startsIn l p₁ s₁ (r.levelsIn l s₁.tree) := by
  rw [starts, List.mem_append] at h
  refine h.imp_right fun h => ?_
  rcases he : ((r.tilesetsIn l s.tree).foldlM (updateInput l) (begun l s.tree)).outcome s with ⟨e | p₁, s₁⟩
  · rw [he] at h
    cases h
  · rw [he] at h
    exact ⟨p₁, s₁, he, h⟩

end Request

/-- A time that the file at a place has not had so far. -/
def NewTime (past : List FileTree) (place : Place) (time : Nat) : Prop :=
  time ≠ 0 ∧ ∀ t ∈ past, ∀ file ∈ t.fileAt? place, Double.ofInt file.modified ≠ Double.ofInt time

instance (past : List FileTree) (place : Place) (time : Nat) : Decidable (NewTime past place time) :=
  inferInstanceAs (Decidable (_ ∧ _))

/-- What can happen to a project that has no cache yet, with the trees that it had before and the compilers that
were started. -/
inductive History (l : Layout) : List FileTree → List Start → Session → Prop
  | begin {s : Session} : l.Fits s.tree →
      (∀ here, s.tree.locate l.root = .ok here → s.tree.fileAt? (here ++ ["build", ".asset_cache.json"]) = none) →
      History l [] [] s
  /-- An input is saved, or a new one is created. -/
  | save {past : List FileTree} {made : List Start} {s : Session} {i : Input} {content : Content} {t : FileTree}
      {place : Place} {time : Nat} : History l past made s →
      s.tree.locate i.path = .ok place → s.tree.write i.path content = .ok t →
      i ∈ inputs l (s.tree.saved place content time) → NewTime (s.tree :: past) place time →
      History l (s.tree :: past) made { s with tree := s.tree.saved place content time }
  /-- The project is updated, however that ends. -/
  | update {past : List FileTree} {made : List Start} {s : Session} (r : Request) : History l past made s →
      (∀ i ∈ r.tilesetsIn l s.tree, i ∈ inputs l s.tree) →
      (∀ a ∈ r.starts l s, a.input.Named a.before.tree) →
      History l (s.tree :: past) (made ++ r.starts l s) ((r.run l).outcome s).2

variable {l : Layout} {past past' : List FileTree} {made made' : List Start} {s s' : Session} {t t' : FileTree}
  {here place : Place} {path : String} {cache : Json}

/-! Saving the cache -/

theorem not_isInput_cache (here : Place) : ¬ (here ++ ["build", ".asset_cache.json"]).IsInput := by
  rintro ⟨name, hn, c, hc, hl⟩
  have ha : here ++ ["build", ".asset_cache.json"] = here ++ ["build"] ++ [".asset_cache.json"] := by simp
  rw [ha, List.getLast?_concat, Option.some.injEq] at hn
  rw [← hn] at hl
  obtain rfl : 'n' = c := Option.some.inj hl
  simp at hc

theorem renews_savedIn (t : FileTree) (here : Place) (cache : Json) : t.Renews (savedIn t here cache) := by
  have hf : ∀ place, place ≠ here ++ ["build", ".asset_cache.json"] →
      (savedIn t here cache).fileAt? place = t.fileAt? place := by
    intro place hne
    rw [savedIn, fileAt?_putAt, if_neg (Ne.symm hne)]
    exact fileAt?_addEach t [here ++ ["build"]] place
  have hc : (savedIn t here cache).clock = t.clock + 1 := by simp [savedIn, putAt]
  have hca : (savedIn t here cache).fileAt? (here ++ ["build", ".asset_cache.json"]) =
      some ⟨.json 2 cache, t.clock⟩ := by
    simp [savedIn]
  refine ⟨⟨grows_savedIn t here cache, by omega, fun place hp => ?_⟩, fun place => ?_⟩
  · by_cases hne : place = here ++ ["build", ".asset_cache.json"]
    · rw [hne, hca]
      rfl
    · rwa [hf place hne]
  · by_cases hne : place = here ++ ["build", ".asset_cache.json"]
    · subst hne
      refine .inr ⟨not_isInput_cache here, fun file hfi => ?_⟩
      rw [Option.mem_def, hca, Option.some.injEq] at hfi
      rw [← hfi, hc]
      exact ⟨Nat.le_refl _, Nat.lt_succ_self _⟩
    · exact .inl (hf place hne)

theorem saveCache_cases (path : String) (cache : Json) (s : Session) :
    (∃ s', (saveCache path cache).Ends s () s') ∨
      s.tree.Grows ((saveCache path cache).outcome s).2.tree ∧
      ((saveCache path cache).outcome s).2.tree.clock = s.tree.clock ∧
      ∀ place, ((saveCache path cache).outcome s).2.tree.fileAt? place = s.tree.fileAt? place := by
  rw [saveCache]
  cases hm : s.tree.makeDirectories (parent path) with
  | error e =>
    have hc : (Act.makeDirectories (parent path)).outcome s = (.error (.crash (.file e (parent path))), s) := by
      rw [Act.makeDirectories, Act.outcome_bind_of_ends (Act.ends_tree.mpr ⟨rfl, rfl⟩), hm]
      rfl
    rw [Act.outcome_bind_of_error hc]
    exact .inr ⟨.refl _, rfl, fun _ => rfl⟩
  | ok t =>
    have he : (Act.makeDirectories (parent path)).Ends s () { s with tree := t } :=
      Act.ends_makeDirectories.mpr ⟨t, hm, rfl⟩
    rw [Act.outcome_bind_of_ends he]
    cases hw : t.write path (.json 2 cache) with
    | ok t' =>
      exact .inl ⟨_, Act.ends_bind.mpr ⟨(), _, he, Act.ends_write.mpr ⟨t', hw, rfl⟩⟩⟩
    | error e =>
      have htry : (Act.tryWrite path (.json 2 cache)).Ends { s with tree := t } (.error e) { s with tree := t } :=
        Act.ends_tryWrite.mpr (.inr ⟨e, hw, rfl, rfl⟩)
      have hc : (Act.write path (.json 2 cache)).outcome { s with tree := t } =
          (.error (.crash (.file e path)), { s with tree := t }) := by
        rw [Act.write, Act.outcome_bind_of_ends htry]
        rfl
      obtain ⟨-, -, ht⟩ := makeDirectories_eq_ok.mp hm
      rw [hc]
      dsimp only
      rw [ht]
      exact .inr ⟨grows_addEach _ _, clock_addEach _ _, fileAt?_addEach _ _⟩

/-! What every step keeps -/

/-- The project is in place, and what is saved as its cache is honest. -/
structure Sound (l : Layout) (past : List FileTree) (made : List Start) (t : FileTree) : Prop where
  fits : l.Fits t
  saved : ∀ here, t.locate l.root = .ok here → ∀ file ∈ t.fileAt? (here ++ ["build", ".asset_cache.json"]),
    ∃ cache, file.content = .json 2 cache ∧ Honest l past made t cache

theorem Sound.step (h : Sound l past made t) (hl : t.Later t')
    (hc : ∀ here, t.locate l.root = .ok here → t'.fileAt? (here ++ ["build", ".asset_cache.json"]) =
      t.fileAt? (here ++ ["build", ".asset_cache.json"]))
    (hh : ∀ cache, Honest l past made t cache → Honest l past' made' t' cache) : Sound l past' made' t' := by
  refine ⟨h.fits.grows hl.grows hl.clock, fun here hhe file hf => ?_⟩
  obtain ⟨he', hh', -⟩ := isDirectory_iff.mp h.fits.rootThere
  obtain rfl := Except.ok.inj ((hl.grows.locate hh').symm.trans hhe)
  rw [hc _ hh'] at hf
  obtain ⟨cache, hco, hc⟩ := h.saved _ hh' file hf
  exact ⟨cache, hco, hh cache hc⟩

theorem Sound.mono (h : Sound l past made t) (hp : past ⊆ past') (hm : made ⊆ made') :
    Sound l past' made' t :=
  h.step (.refl t) (fun _ _ => rfl) fun _ hh => hh.mono hp hm

theorem Sound.worked (h : Sound l past made t) (hw : Worked l t t') (hc : t'.clock ≤ 1 <<< 53) :
    Sound l past made t' := by
  have hr := hw.renews h.fits
  refine h.step hr.toLater (fun here hh => ?_) fun cache hho => hho.renews hr hc
  rcases hw.files h.fits (here ++ ["build", ".asset_cache.json"]) with hs | ⟨-, ⟨i, t₁, path, hp, hpl⟩, -⟩
  · exact hs
  · obtain ⟨kind, name, -, hk, hn, rfl⟩ := exists_kind_of_mem_outputs hp
    have heq := hk.place_eq hn (hr.grows.locate hh) hpl
    have heq : ["build"] ++ [".asset_cache.json"] = components kind.1 ++ [name ++ kind.2] :=
      List.append_cancel_left heq
    exact absurd (List.append_inj' heq rfl).1.symm hk.directory.generated

theorem Sound.honest (h : Sound l past made t) : Honest l past made t (loadCache t l.cache) := by
  cases hp : t.locate l.cache with
  | error e =>
    rw [loadCache_of_error hp]
    exact honest_empty l past made t
  | ok place =>
    obtain ⟨here, hh, -⟩ := isDirectory_iff.mp h.fits.rootThere
    have heq := place_of_cache hh hp
    cases hf : t.fileAt? place with
    | none =>
      have hn : loadCache t l.cache = .obj [] := by
        unfold loadCache FileTree.json FileTree.text FileTree.bytes
        rw [hp]
        dsimp only
        rw [hf]
        rfl
      rw [hn]
      exact honest_empty l past made t
    | some file =>
      obtain ⟨cache, hc, hho⟩ := h.saved here hh file (heq ▸ hf)
      have hf : t.fileAt? place = some ⟨.json 2 cache, file.modified⟩ := by rw [hf, ← hc]
      rw [loadCache_eq hp hf]
      exact hho

theorem outcome_bind_pure {α β : Type} (m : Act α) (b : β) (s : Session) :
    ((m >>= fun _ => pure b).outcome s).2 = (m.outcome s).2 := by
  rcases h : m.outcome s with ⟨e | a, s'⟩
  · rw [Act.outcome_bind_of_error h]
  · rw [Act.outcome_bind_of_ends h]
    rfl

theorem renews_saveCache (hr : s.tree.isDirectory l.root = true) (cache : Json) :
    s.tree.Renews ((saveCache l.cache cache).outcome s).2.tree := by
  rcases saveCache_cases l.cache cache s with ⟨s', he⟩ | ⟨hg, hc, hf⟩
  · obtain ⟨here, hh, hd⟩ := isDirectory_iff.mp hr
    rw [he]
    dsimp only
    rw [tree_of_saveCache hh hd he]
    exact renews_savedIn s.tree here cache
  · exact ⟨⟨hg, hc.ge, fun place hp => by rwa [hf place]⟩, fun place => .inl (hf place)⟩

/-- A project whose cache is honest is sound when it is saved, or when that fails. -/
theorem Sound.saveCache (h : Sound l past made s.tree) (hh : Honest l past made s.tree cache)
    (hc : ((Assets.saveCache l.cache cache).outcome s).2.tree.clock ≤ 1 <<< 53) :
    Sound l past made ((Assets.saveCache l.cache cache).outcome s).2.tree := by
  have hr := renews_saveCache h.fits.rootThere cache
  rcases saveCache_cases l.cache cache s with ⟨s', he⟩ | ⟨-, -, hf⟩
  · obtain ⟨here, hhe, hd⟩ := isDirectory_iff.mp h.fits.rootThere
    have ht := tree_of_saveCache hhe hd he
    rw [he] at hr hc ⊢
    refine ⟨h.fits.grows hr.grows hr.clock, fun he' hh' file hfi => ?_⟩
    obtain rfl := Except.ok.inj ((hr.grows.locate hhe).symm.trans hh')
    rw [Option.mem_def, ht, savedIn, fileAt?_putAt, if_pos rfl, Option.some.injEq] at hfi
    exact ⟨cache, hfi ▸ rfl, hh.renews hr hc⟩
  · exact h.step hr.toLater (fun here _ => hf _) fun cache hca => hca.renews hr hc

/-- A save keeps a project sound: a record does not know the new time, and an output is not saved. -/
theorem Sound.save {i : Input} {content : Content} {time : Nat} (h : Sound l past made t)
    (hpl : t.locate i.path = .ok place) (hi : i ∈ inputs l (t.saved place content time))
    (hnew : NewTime (t :: past) place time) : Sound l (t :: past) made (t.saved place content time) := by
  have hin : place.IsInput := isInput_of_mem_inputs hi hpl
  have ho : ∀ p, p ≠ place → (t.saved place content time).fileAt? p = t.fileAt? p := by
    intro p hp
    rw [fileAt?_saved, if_neg hp]
  have hs := fileAt?_saved_self t place content time
  have hl := later_saved t place content time
  refine h.step hl (fun here _ => ho _ ?_) fun cache hh path hpa => ?_
  · rintro rfl
    exact not_isInput_cache here hin
  · rcases hh path hpa with hn | ⟨r, hr⟩
    · exact .inl hn
    · refine .inr ⟨r, hr.step (List.subset_cons_self _ _) (List.Subset.refl _) hl rfl ?_ ?_⟩
      · by_cases hne : r.place = place
        · right
          intro file hf heq
          rw [hne] at hf
          obtain rfl := Option.some.inj (hs.symm.trans hf)
          obtain ⟨t₀, ht₀, hk⟩ := hr.known
          exact hnew.2 t₀ (List.mem_cons_of_mem _ ht₀) r.file (hne ▸ hk) heq.symm
        · exact .inl (ho _ hne)
      · left
        apply ho
        rintro rfl
        exact hr.isOutput hin

section Request

variable {r : Request} {p : Progress}

/-- The compilers that an update starts are those that are started in its turns. -/
theorem Request.mem_starts_iff {a : Start} (hl : l.Fits s.tree)
    (hi : ∀ i ∈ r.tilesetsIn l s.tree, i ∈ inputs l s.tree)
    (hn : ∀ a ∈ r.starts l s, a.input.Named a.before.tree) :
    a ∈ r.starts l s ↔ a ∈ startsIn l (begun l s.tree) s (r.turns l s.tree) := by
  have hw := worked_turns hl hi fun a ha => hn a (List.mem_append_left _ ha)
  rw [turns, mem_startsIn_append]
  constructor
  · intro ha
    refine (mem_starts ha).imp_right fun ⟨p₁, s₁, he, ha⟩ => ⟨p₁, s₁, he, ?_⟩
    rw [he] at hw
    rwa [levelsIn_worked hl hw] at ha
  · rintro (ha | ⟨p₁, s₁, he, ha⟩)
    · exact List.mem_append_left _ ha
    · rw [he] at hw
      rw [← levelsIn_worked hl hw] at ha
      rw [starts, he]
      exact List.mem_append_right _ ha

theorem Request.outcome_run (hl : l.Fits s.tree) (hi : ∀ i ∈ r.tilesetsIn l s.tree, i ∈ inputs l s.tree)
    (hn : ∀ a ∈ r.starts l s, a.input.Named a.before.tree) :
    (r.run l).outcome s = (do
      let p ← (r.turns l s.tree).foldlM (updateInput l) (begun l s.tree)
      saveCache l.cache p.cache
      return p.ok : Act Bool).outcome s := by
  have hw := worked_turns hl hi fun a ha => hn a (List.mem_append_left _ ha)
  rw [r.run_eq, Act.outcome_bind_of_ends (Act.ends_tree.mpr ⟨rfl, rfl⟩), turns, List.foldlM_append, bind_assoc]
  rcases h : ((r.tilesetsIn l s.tree).foldlM (updateInput l) (begun l s.tree)).outcome s with ⟨e | p₁, s₁⟩
  · rw [Act.outcome_bind_of_error h, Act.outcome_bind_of_error h]
  · rw [h] at hw
    rw [Act.outcome_bind_of_ends h, Act.outcome_bind_of_ends h,
      Act.outcome_bind_of_ends (Act.ends_tree.mpr ⟨rfl, rfl⟩), levelsIn_worked hl hw]

theorem Request.mem_inputs_of_mem_turns (hin : ∀ i ∈ r.tilesetsIn l t, i ∈ inputs l t) :
    ∀ i ∈ r.turns l t, i ∈ inputs l t :=
  List.forall_mem_append.mpr ⟨hin, fun _ hi => mem_inputs_of_mem_levelsIn hi⟩

/-- An update ends in a turn, or it goes through all its turns and comes to saving the cache. -/
theorem Request.outcome_cases (hl : l.Fits s.tree) (hi : ∀ i ∈ r.tilesetsIn l s.tree, i ∈ inputs l s.tree)
    (hn : ∀ a ∈ r.starts l s, a.input.Named a.before.tree) :
    Worked l s.tree ((r.run l).outcome s).2.tree ∨ ∃ p s₁,
      ((r.turns l s.tree).foldlM (updateInput l) (begun l s.tree)).Ends s p s₁ ∧ Worked l s.tree s₁.tree ∧
      ((r.run l).outcome s).2 = ((saveCache l.cache p.cache).outcome s₁).2 := by
  have hw := worked_turns hl (mem_inputs_of_mem_turns hi) fun a ha =>
    hn a ((mem_starts_iff hl hi hn).mpr ha)
  rw [outcome_run hl hi hn]
  rcases h : ((r.turns l s.tree).foldlM (updateInput l) (begun l s.tree)).outcome s with ⟨e | p, s₁⟩
  · rw [h] at hw
    rw [Act.outcome_bind_of_error h]
    exact .inl hw
  · rw [h] at hw
    rw [Act.outcome_bind_of_ends h, outcome_bind_pure]
    exact .inr ⟨p, s₁, h, hw, rfl⟩

theorem honest_of_request (h : Sound l past made s.tree)
    (hi : ∀ i ∈ r.tilesetsIn l s.tree, i ∈ inputs l s.tree)
    (hn : ∀ a ∈ r.starts l s, a.input.Named a.before.tree)
    (he : ((r.turns l s.tree).foldlM (updateInput l) (begun l s.tree)).Ends s p s')
    (hc : s'.tree.clock ≤ 1 <<< 53) :
    Honest l (s.tree :: past) (made ++ r.starts l s) s'.tree p.cache := by
  have hb : Honest l (s.tree :: past) (made ++ r.starts l s) s.tree (begun l s.tree).cache :=
    h.honest.mono (List.subset_cons_self _ _) (List.subset_append_left _ _)
  refine honest_of_turns h.fits (.refl l _) (List.mem_cons_self ..) (Request.mem_inputs_of_mem_turns hi)
    (fun a ha => ?_) he hc hb
  have ha := (Request.mem_starts_iff h.fits hi hn).mpr ha
  exact ⟨hn a ha, List.mem_append_right _ ha⟩

theorem later_request (hl : l.Fits s.tree) (hi : ∀ i ∈ r.tilesetsIn l s.tree, i ∈ inputs l s.tree)
    (hn : ∀ a ∈ r.starts l s, a.input.Named a.before.tree) : s.tree.Later ((r.run l).outcome s).2.tree := by
  rcases Request.outcome_cases hl hi hn with hw | ⟨p, s₁, -, hw, hs⟩
  · exact (hw.renews hl).toLater
  · rw [hs]
    exact (hw.renews hl).toLater.trans (renews_saveCache (hl.worked hw).rootThere _).toLater

theorem Sound.update (h : Sound l past made s.tree) (hi : ∀ i ∈ r.tilesetsIn l s.tree, i ∈ inputs l s.tree)
    (hn : ∀ a ∈ r.starts l s, a.input.Named a.before.tree)
    (hc : ((r.run l).outcome s).2.tree.clock ≤ 1 <<< 53) :
    Sound l (s.tree :: past) (made ++ r.starts l s) ((r.run l).outcome s).2.tree := by
  have hs : Sound l (s.tree :: past) (made ++ r.starts l s) s.tree :=
    h.mono (List.subset_cons_self _ _) (List.subset_append_left _ _)
  rcases Request.outcome_cases h.fits hi hn with hw | ⟨p, s₁, he, hw, hsa⟩
  · exact hs.worked hw hc
  · rw [hsa] at hc ⊢
    have hc₁ := (renews_saveCache (h.fits.worked hw).rootThere p.cache).clock
    have hh := honest_of_request h hi hn he (by omega)
    exact (hs.worked hw (by omega)).saveCache hh hc

end Request

theorem History.fits (h : History l past made s) : l.Fits s.tree := by
  induction h with
  | begin hl _ => exact hl
  | save _ _ _ _ _ ih => exact ih.grows (grows_saved ..) (Nat.le_succ _)
  | update r _ hi hn ih =>
    have hla := later_request ih hi hn
    exact ih.grows hla.grows hla.clock

theorem History.sound (h : History l past made s) (hc : s.tree.clock ≤ 1 <<< 53) :
    Sound l past made s.tree := by
  induction h with
  | begin hl hn =>
    refine ⟨hl, fun here hh file hf => ?_⟩
    rw [hn here hh] at hf
    cases hf
  | save _ hp _ hi hnew ih => exact (ih (Nat.le_trans (Nat.le_succ _) hc)).save hp hi hnew
  | update r h hin hna ih =>
    have hla := later_request h.fits hin hna
    exact (ih (Nat.le_trans hla.clock hc)).update hin hna hc

theorem Layout.Fits.stands (h : l.Fits t) : l.Stands t :=
  ⟨h.rootThere, .inl h.tilesets.2, .inl h.levels.2⟩

theorem fresh_saveCache {i : Input} {cache' : Json} {u : Unit} (hl : l.Fits s.tree)
    (ht : ∀ i ∈ inputs l s.tree, HasTime s.tree i.path) (hi : i ∈ inputs l s.tree)
    (hf : Fresh s.tree cache i.path (i.outputs l s.tree)) (h : (saveCache l.cache cache').Ends s u s') :
    Fresh s'.tree cache i.path (i.outputs l s'.tree) := by
  obtain ⟨hs, hk⟩ := sameInputs_of_saveCache hl.stands ht h
  rw [hs.outputs i hi]
  exact hf.congr (hs.times i hi) (fun path hp => hk i hi path hp (hf.hasTime path hp)) rfl

end EscapeRoom.Assets
