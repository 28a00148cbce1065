import EscapeRoom.Proofs.Assets.Edits
import EscapeRoom.Proofs.Compilers

/-!
# Exact updates

An update gives every input its turn, and starts the compiler of those that are stale. If each compiler
leaves the inputs and the outputs of others, whether an input is stale does not depend on the turns before
its own, and an input is fresh after a turn that went well.
-/

namespace EscapeRoom

def Act.exitCode : Except Ending Unit → Int
  | .ok () => 0
  | .error (.exit code) => code
  | .error (.crash _) => 1

theorem Act.exists_ends_start (tool : Tool) (command : List String → Act Unit) (words : List String) (s : Session) :
    ∃ s', (start tool command words).Ends s (exitCode ((command words).outcome s).1) s' ∧
      s'.tree = ((command words).outcome s).2.tree ∧
      s'.started = ((command words).outcome s).2.started ++ [(tool, words)] := by
  have hlog : ∀ (s : Session) (entries : List LogEntry) (code : Int), entries.filterMap LogEntry.started? = [] →
      ({ s with log := s.log ++ entries ++ [.ran tool words code] } : Session).started =
        s.started ++ [(tool, words)] := by
    intro s entries code he
    simp [Session.started, he, LogEntry.started?]
  rcases h : (command words).outcome s with ⟨ending, s'⟩
  have hrun : (command words).run.run s = (ending, s') := h
  cases ending with
  | ok u =>
    refine ⟨{ s' with log := s'.log ++ [.ran tool words 0] }, ?_, rfl, by simpa using hlog s' [] 0 rfl⟩
    refine ends_bind.mpr ⟨s, s, rfl, ?_⟩
    rw [hrun]
    rfl
  | error e =>
    cases e with
    | exit code =>
      refine ⟨{ s' with log := s'.log ++ [.ran tool words code] }, ?_, rfl, by simpa using hlog s' [] code rfl⟩
      refine ends_bind.mpr ⟨s, s, rfl, ?_⟩
      rw [hrun]
      rfl
    | crash c =>
      refine ⟨{ s' with log := s'.log ++ [.crashed c] ++ [.ran tool words 1] }, ?_, rfl, hlog s' [.crashed c] 1 rfl⟩
      refine ends_bind.mpr ⟨s, s, rfl, ?_⟩
      rw [hrun]
      rfl

namespace Assets

variable {l : Layout} {p p' p'' : Progress} {s s' s'' : Session} {t t' : FileTree} {i : Input} {stale : Input → Bool}

def updateInput (l : Layout) (p : Progress) (i : Input) : Act Progress := do
  let t ← Act.tree
  update p i.path (i.outputs l t) (Act.start i.tool i.command (i.words l t))

def updateInputs (l : Layout) (p : Progress) : Act Progress := do
  let p ← (tilesetsOf l (← Act.tree)).foldlM (updateInput l) p
  (levelsOf l (← Act.tree)).foldlM (updateInput l) p

/-- How an update begins: with the cache as it was saved. -/
def begun (l : Layout) (t : FileTree) : Progress :=
  { cache := loadCache t l.cache }

theorem updateAll_none (l : Layout) : updateAll l none = do
    let p ← updateInputs l (begun l (← Act.tree))
    saveCache l.cache p.cache
    return p.ok := by
  have hall : ∀ paths : List String, (paths.filter fun path => !changedWith none ".lvl" || some path = none) = paths :=
    fun paths => List.filter_eq_self.mpr fun _ _ => rfl
  unfold updateAll updateInputs tilesetsOf levelsOf
  simp only [List.foldlM_map, bind_assoc, hall]
  rfl

section Update

variable {input : String} {outputs : List String} {make : Act Int} {code : Int}

theorem ends_update_fresh (h : isStale s.tree p.cache input outputs = .ok false) :
    (update p input outputs make).Ends s p s := by
  simp only [update, Act.ends_bind, Act.ends_tree, Act.ends_orCrash]
  refine ⟨s.tree, s, ⟨rfl, rfl⟩, false, s, ⟨h, rfl⟩, ?_⟩
  rw [if_pos (by decide), Act.ends_pure]
  exact ⟨rfl, rfl⟩

theorem ends_update_failed (h : isStale s.tree p.cache input outputs = .ok true) (hm : make.Ends s code s')
    (hc : code ≠ 0) : (update p input outputs make).Ends s { p with ok := false } s' := by
  simp only [update, Act.ends_bind, Act.ends_tree, Act.ends_orCrash]
  refine ⟨s.tree, s, ⟨rfl, rfl⟩, true, s, ⟨h, rfl⟩, ?_⟩
  rw [if_neg (by decide)]
  refine Act.ends_bind.mpr ⟨code, s', hm, ?_⟩
  rw [if_neg hc, Act.ends_pure]
  exact ⟨rfl, rfl⟩

theorem ends_update_made {cache : Json} (h : isStale s.tree p.cache input outputs = .ok true)
    (hm : make.Ends s 0 s') (hr : record s'.tree p.cache input outputs = .ok cache) :
    (update p input outputs make).Ends s { p with cache } s' := by
  simp only [update, Act.ends_bind, Act.ends_tree, Act.ends_orCrash]
  refine ⟨s.tree, s, ⟨rfl, rfl⟩, true, s, ⟨h, rfl⟩, ?_⟩
  rw [if_neg (by decide)]
  refine Act.ends_bind.mpr ⟨0, s', hm, ?_⟩
  rw [if_pos rfl]
  simp only [Act.ends_bind, Act.ends_tree, Act.ends_orCrash, Act.ends_pure]
  exact ⟨s'.tree, s', ⟨rfl, rfl⟩, cache, s', ⟨hr, rfl⟩, rfl, rfl⟩

theorem exists_isStale_of_ends (h : (update p input outputs make).Ends s p' s') :
    ∃ stale, isStale s.tree p.cache input outputs = .ok stale := by
  simp only [update, Act.ends_bind, Act.ends_tree, Act.ends_orCrash] at h
  obtain ⟨t, s₁, ⟨rfl, rfl⟩, stale, s₂, ⟨hs, rfl⟩, -⟩ := h
  exact ⟨stale, hs⟩

end Update

/-- A compiler that is started: its input, and the session before it. -/
structure Start where
  input : Input
  before : Session

namespace Start

/-- How the compiler ends, and the session that it leaves. -/
def outcome (l : Layout) (a : Start) : Except Ending Unit × Session :=
  (a.input.command (a.input.words l a.before.tree)).outcome a.before

def code (l : Layout) (a : Start) : Int :=
  Act.exitCode (a.outcome l).1

def after (l : Layout) (a : Start) : FileTree :=
  (a.outcome l).2.tree

/-- What is asked of a compiler: to make all outputs of its input when it ends well, and, however it ends, to
leave the inputs and the outputs of other inputs. -/
structure Obeys (l : Layout) (a : Start) : Prop where
  makes : a.code l = 0 → ∀ path ∈ a.input.outputs l a.before.tree, HasTime (a.after l) path
  same : SameInputs l a.before.tree (a.after l)
  others : ∀ i ∈ inputs l a.before.tree, i ≠ a.input → ∀ path ∈ i.outputs l a.before.tree,
    timeOf (a.after l) path = timeOf a.before.tree path

instance (l : Layout) (a : Start) : Decidable (a.Obeys l) :=
  decidable_of_iff ((a.code l = 0 → ∀ path ∈ a.input.outputs l a.before.tree, HasTime (a.after l) path) ∧
      SameInputs l a.before.tree (a.after l) ∧
      ∀ i ∈ inputs l a.before.tree, i ≠ a.input → ∀ path ∈ i.outputs l a.before.tree,
        timeOf (a.after l) path = timeOf a.before.tree path)
    ⟨fun h => ⟨h.1, h.2.1, h.2.2⟩, fun h => ⟨h.makes, h.same, h.others⟩⟩

end Start

/-- The compilers that are started when inputs have their turns. -/
def startsIn (l : Layout) (p : Progress) (s : Session) : List Input → List Start
  | [] => []
  | i :: turns =>
    (if isStale s.tree p.cache i.path (i.outputs l s.tree) = .ok true then [⟨i, s⟩] else []) ++
      match (updateInput l p i).outcome s with
      | (.ok p', s') => startsIn l p' s' turns
      | (.error _, _) => []

/-- The compilers that an update of everything starts. -/
def starts (l : Layout) (s : Session) : List Start :=
  startsIn l (begun l s.tree) s (tilesetsOf l s.tree) ++
    match ((tilesetsOf l s.tree).foldlM (updateInput l) (begun l s.tree)).outcome s with
    | (.ok p', s') => startsIn l p' s' (levelsOf l s'.tree)
    | (.error _, _) => []

/-- What turns of inputs come to: the stale ones are made, and all else is left. -/
structure Ran (l : Layout) (stale : Input → Bool) (p : Progress) (s : Session) (turns : List Input) (p' : Progress)
    (s' : Session) : Prop where
  same : SameInputs l s.tree s'.tree
  grows : s.tree.Grows s'.tree
  times : ∀ i ∈ inputs l s.tree, i ∉ turns → ∀ path ∈ i.outputs l s.tree, timeOf s'.tree path = timeOf s.tree path
  members : ∀ i ∈ inputs l s.tree, i ∉ turns →
    member p'.cache i.path (.obj []) = member p.cache i.path (.obj [])
  started : s'.started = s.started ++ (turns.filter stale).map fun i => (i.tool, i.words l s.tree)
  idle : (∀ i ∈ turns, stale i = false) → p' = p ∧ s' = s
  fresh : p'.ok = true → p.ok = true ∧ ∀ i ∈ turns, Fresh s'.tree p'.cache i.path (i.outputs l s'.tree)

theorem Ran.refl (l : Layout) (stale : Input → Bool) (p : Progress) (s : Session) : Ran l stale p s [] p s where
  same := .refl l s.tree
  grows := .refl s.tree
  times := fun _ _ _ _ _ => rfl
  members := fun _ _ _ => rfl
  started := by simp
  idle := fun _ => ⟨rfl, rfl⟩
  fresh := fun h => ⟨h, by simp⟩

theorem Input.words_congr (h : i.outputs l t' = i.outputs l t) : i.words l t' = i.words l t := by
  cases i with
  | tileset path =>
    have h : tilesetOutputs t' l.root path = tilesetOutputs t l.root path := h
    simp only [Input.words, h]
  | level path => rfl

theorem Ran.trans {turns turns' : List Input} (h : Ran l stale p s turns p' s') (h' : Ran l stale p' s' turns' p'' s'')
    (ht : ∀ i ∈ turns ++ turns', i ∈ inputs l s.tree) (hdi : ∀ i ∈ turns, i ∉ turns') :
    Ran l stale p s (turns ++ turns') p'' s'' := by
  have hin := h.same.inputs_eq
  refine ⟨h.same.trans h'.same, h.grows.trans h'.grows, ?_, ?_, ?_, ?_, ?_⟩
  · intro i hi hnot path hp
    rw [List.mem_append, not_or] at hnot
    rw [← h.times i hi hnot.1 path hp]
    exact h'.times i (hin ▸ hi) hnot.2 path (h.same.outputs i hi ▸ hp)
  · intro i hi hnot
    rw [List.mem_append, not_or] at hnot
    rw [← h.members i hi hnot.1]
    exact h'.members i (hin ▸ hi) hnot.2
  · have hw : (turns'.filter stale).map (fun i => (i.tool, i.words l s'.tree)) =
        (turns'.filter stale).map fun i => (i.tool, i.words l s.tree) := by
      apply List.map_congr_left
      intro i hi
      have hi := ht i (List.mem_append_right turns (List.mem_filter.mp hi).1)
      rw [Input.words_congr (h.same.outputs i hi)]
    rw [h'.started, h.started, hw, List.filter_append, List.map_append, List.append_assoc]
  · intro hid
    rw [List.forall_mem_append] at hid
    obtain ⟨rfl, rfl⟩ := h.idle hid.1
    exact h'.idle hid.2
  · intro hok
    obtain ⟨hok, hf'⟩ := h'.fresh hok
    obtain ⟨hok, hf⟩ := h.fresh hok
    refine ⟨hok, List.forall_mem_append.mpr ⟨fun i hi => ?_, hf'⟩⟩
    -- The later turns are those of other inputs.
    have hmem := hin ▸ ht i (List.mem_append_left turns' hi)
    rw [h'.same.outputs i hmem]
    exact (hf i hi).congr (h'.same.times i hmem) (h'.times i hmem (hdi i hi))
      (h'.members i hmem (hdi i hi))

theorem Input.advances_command (i : Input) (words : List String) : (i.command words).Advances := by
  cases i with
  | tileset path => exact TilesetCompiler.advances_run words
  | level path => exact LevelCompiler.advances_run words

theorem ends_updateInput (h : (update p i.path (i.outputs l s.tree)
    (Act.start i.tool i.command (i.words l s.tree))).Ends s p' s') : (updateInput l p i).Ends s p' s' :=
  Act.ends_bind.mpr ⟨s.tree, s, Act.ends_tree.mpr ⟨rfl, rfl⟩, h⟩

theorem exists_turn (hi : i ∈ inputs l s.tree) (ht : HasTime s.tree i.path)
    (hs : isStale s.tree p.cache i.path (i.outputs l s.tree) = .ok (stale i))
    (ho : stale i = true → (⟨i, s⟩ : Start).Obeys l) :
    ∃ p' s', (updateInput l p i).Ends s p' s' ∧ Ran l stale p s [i] p' s' := by
  cases hi' : stale i with
  | false =>
    rw [hi'] at hs
    refine ⟨p, s, ends_updateInput (ends_update_fresh hs), .refl l s.tree, .refl s.tree, fun _ _ _ _ _ => rfl,
      fun _ _ _ => rfl, by simp [hi'], fun _ => ⟨rfl, rfl⟩, fun hok => ⟨hok, ?_⟩⟩
    rw [List.forall_mem_singleton]
    exact fresh_of_isStale ht hs
  | true =>
    rw [hi'] at hs
    have ho := ho hi'
    obtain ⟨s', he, htr, hst⟩ := Act.exists_ends_start i.tool i.command (i.words l s.tree) s
    obtain ⟨hn, hg⟩ := i.advances_command (i.words l s.tree) s
    have ha : (⟨i, s⟩ : Start).after l = s'.tree := htr.symm
    have hsa : SameInputs l s.tree s'.tree := ha ▸ ho.same
    have hti : ∀ j ∈ inputs l s.tree, j ∉ [i] → ∀ path ∈ j.outputs l s.tree,
        timeOf s'.tree path = timeOf s.tree path := by
      intro j hj hne
      rw [← ha]
      exact ho.others j hj (by simpa using hne)
    have hst : s'.started = s.started ++ ([i].filter stale).map fun j => (j.tool, j.words l s.tree) := by
      rw [hst, hn]
      simp [hi']
    have hid : ¬ ∀ j ∈ [i], stale j = false := by simp [hi']
    by_cases hc : (⟨i, s⟩ : Start).code l = 0
    · obtain ⟨members, hm⟩ := exists_members_of_isStale ht hs
      have ht' : HasTime s'.tree i.path := ht.congr (hsa.times i hi)
      have hou : ∀ path ∈ i.outputs l s.tree, HasTime s'.tree path := by
        rw [← ha]
        exact ho.makes hc
      obtain ⟨cache, hr, hf, hk⟩ := exists_record ht' hou
      rw [← hm] at hr hk
      have he : (Act.start i.tool i.command (i.words l s.tree)).Ends s 0 s' := hc ▸ he
      refine ⟨_, s', ends_updateInput (ends_update_made hs he hr), hsa, htr ▸ hg, hti, ?_,
        hst, fun h => absurd h hid, fun hok => ⟨hok, ?_⟩⟩
      · intro j hj hne
        refine hk j.path (fun hp => hne ?_) _
        rw [List.mem_singleton]
        exact eq_of_path_eq hj hi hp
      · rw [List.forall_mem_singleton, hsa.outputs i hi]
        exact hf
    · refine ⟨_, s', ends_updateInput (ends_update_failed hs he hc), hsa, htr ▸ hg, hti,
        fun _ _ _ => rfl, hst, fun h => absurd h hid, fun hok => absurd hok (by simp)⟩

/-- Whether the compiler of an input is started when it has its turn. -/
def staleAt (l : Layout) (p : Progress) (t : FileTree) (i : Input) : Bool :=
  decide (isStale t p.cache i.path (i.outputs l t) = .ok true)

theorem isStale_eq_staleAt (h : ∃ b, isStale t p.cache i.path (i.outputs l t) = .ok b) :
    isStale t p.cache i.path (i.outputs l t) = .ok (staleAt l p t i) := by
  obtain ⟨b, hb⟩ := h
  cases b with
  | false => simp [staleAt, hb]
  | true => simp [staleAt, hb]

section Turns

variable {turns : List Input}

theorem mem_startsIn_of_stale (h : isStale s.tree p.cache i.path (i.outputs l s.tree) = .ok true) :
    ⟨i, s⟩ ∈ startsIn l p s (i :: turns) := by
  rw [startsIn, if_pos h]
  exact List.mem_append_left _ (List.mem_singleton.mpr rfl)

theorem mem_startsIn_of_ends {a : Start} (h : (updateInput l p i).Ends s p' s') (ha : a ∈ startsIn l p' s' turns) :
    a ∈ startsIn l p s (i :: turns) := by
  rw [startsIn, h]
  exact List.mem_append_right _ ha

theorem Ran.isStale_eq (h : Ran l stale p s turns p' s') (hi : i ∈ inputs l s.tree) (ht : i ∉ turns) :
    isStale s'.tree p'.cache i.path (i.outputs l s'.tree) = isStale s.tree p.cache i.path (i.outputs l s.tree) := by
  rw [h.same.outputs i hi]
  exact isStale_congr (h.same.times i hi) (h.times i hi ht) (h.members i hi ht)

theorem Ran.hasTime (h : Ran l stale p s turns p' s') (hi : i ∈ inputs l s.tree) (ht : HasTime s.tree i.path) :
    HasTime s'.tree i.path :=
  ht.congr (h.same.times i hi)

theorem exists_run (ht : ∀ i ∈ turns, i ∈ inputs l s.tree) (hn : turns.Nodup)
    (hti : ∀ i ∈ turns, HasTime s.tree i.path)
    (hs : ∀ i ∈ turns, isStale s.tree p.cache i.path (i.outputs l s.tree) = .ok (stale i))
    (ho : ∀ a ∈ startsIn l p s turns, stale a.input = true → a.Obeys l) :
    ∃ p' s', (turns.foldlM (updateInput l) p).Ends s p' s' ∧ Ran l stale p s turns p' s' := by
  induction turns generalizing p s with
  | nil => exact ⟨p, s, Act.ends_pure.mpr ⟨rfl, rfl⟩, .refl l stale p s⟩
  | cons i turns ih =>
    have hall := ht
    rw [List.forall_mem_cons] at ht hti hs
    rw [List.nodup_cons] at hn
    obtain ⟨p₁, s₁, he, hran⟩ := exists_turn ht.1 hti.1 hs.1 fun hi =>
      ho ⟨i, s⟩ (mem_startsIn_of_stale (hi ▸ hs.1)) hi
    have hot : ∀ j ∈ turns, j ∉ [i] := by
      intro j hj hji
      rw [List.mem_singleton.mp hji] at hj
      exact hn.1 hj
    obtain ⟨p₂, s₂, he', hr'⟩ := ih (fun j hj => hran.same.inputs_eq ▸ ht.2 j hj) hn.2
      (fun j hj => hran.hasTime (ht.2 j hj) (hti.2 j hj))
      (fun j hj => (hran.isStale_eq (ht.2 j hj) (hot j hj)).trans (hs.2 j hj))
      (fun a ha => ho a (mem_startsIn_of_ends he ha))
    refine ⟨p₂, s₂, ?_, hran.trans hr' hall (by simpa using hn.1)⟩
    rw [List.foldlM_cons]
    exact Act.ends_bind.mpr ⟨p₁, s₁, he, he'⟩

theorem exists_isStale_of_run (htu : ∀ i ∈ turns, i ∈ inputs l s.tree) (hn : turns.Nodup)
    (hti : ∀ i ∈ turns, HasTime s.tree i.path) (ho : ∀ a ∈ startsIn l p s turns, a.Obeys l)
    (h : (turns.foldlM (updateInput l) p).Ends s p' s') :
    ∀ i ∈ turns, ∃ stale, isStale s.tree p.cache i.path (i.outputs l s.tree) = .ok stale := by
  induction turns generalizing p s with
  | nil => simp
  | cons i turns ih =>
    rw [List.forall_mem_cons] at htu hti
    rw [List.nodup_cons] at hn
    rw [List.foldlM_cons] at h
    obtain ⟨p₁, s₁, he, hr⟩ := Act.ends_bind.mp h
    obtain ⟨t, s₂, ht, hu⟩ := Act.ends_bind.mp he
    obtain ⟨rfl, rfl⟩ := Act.ends_tree.mp ht
    obtain ⟨b, hb⟩ := exists_isStale_of_ends hu
    obtain ⟨p₂, s₂, he', hran⟩ : ∃ p' s', (updateInput l p i).Ends s p' s' ∧ Ran l (fun _ => b) p s [i] p' s' :=
      exists_turn htu.1 hti.1 hb fun hi => ho ⟨i, s⟩ (mem_startsIn_of_stale (hi ▸ hb))
    obtain ⟨rfl, rfl⟩ := he.unique he'
    refine List.forall_mem_cons.mpr ⟨⟨b, hb⟩, fun j hj => ?_⟩
    have hot : j ∉ [i] := by
      rw [List.mem_singleton]
      rintro rfl
      exact hn.1 hj
    rw [← hran.isStale_eq (htu.2 j hj) hot]
    exact ih (fun j hj => hran.same.inputs_eq ▸ htu.2 j hj) hn.2
      (fun j hj => hran.hasTime (htu.2 j hj) (hti.2 j hj))
      (fun a ha => ho a (mem_startsIn_of_ends he ha)) hr j hj

theorem ran_of_ends (ht : ∀ i ∈ turns, i ∈ inputs l s.tree) (hn : turns.Nodup)
    (hti : ∀ i ∈ turns, HasTime s.tree i.path) (ho : ∀ a ∈ startsIn l p s turns, a.Obeys l)
    (h : (turns.foldlM (updateInput l) p).Ends s p' s') : Ran l (staleAt l p s.tree) p s turns p' s' := by
  obtain ⟨p₁, s₁, he, hran⟩ := exists_run ht hn hti
    (fun i hi => isStale_eq_staleAt (exists_isStale_of_run ht hn hti ho h i hi))
    (fun a ha _ => ho a ha)
  obtain ⟨rfl, rfl⟩ := h.unique he
  exact hran

end Turns

theorem mem_starts_of_ends {a : Start}
    (h : ((tilesetsOf l s.tree).foldlM (updateInput l) (begun l s.tree)).Ends s p' s')
    (ha : a ∈ startsIn l p' s' (levelsOf l s'.tree)) : a ∈ starts l s := by
  rw [starts, h]
  exact List.mem_append_right _ ha

theorem exists_updateInputs (ht : ∀ i ∈ inputs l s.tree, HasTime s.tree i.path)
    (hs : ∀ i ∈ inputs l s.tree,
      isStale s.tree (begun l s.tree).cache i.path (i.outputs l s.tree) = .ok (stale i))
    (ho : ∀ a ∈ starts l s, stale a.input = true → a.Obeys l) :
    ∃ p' s', (updateInputs l (begun l s.tree)).Ends s p' s' ∧
      Ran l stale (begun l s.tree) s (inputs l s.tree) p' s' := by
  obtain ⟨hn, hnl, hdi⟩ := List.nodup_append.mp (nodup_inputs l s.tree)
  obtain ⟨hti, hl⟩ := List.forall_mem_append.mp ht
  obtain ⟨hst, hsl⟩ := List.forall_mem_append.mp hs
  have hmem : ∀ i ∈ levelsOf l s.tree, i ∈ inputs l s.tree := fun i => List.mem_append_right _
  have hot : ∀ i ∈ levelsOf l s.tree, i ∉ tilesetsOf l s.tree := fun i hi hi' => hdi i hi' i hi rfl
  obtain ⟨p₁, s₁, he, hran⟩ := exists_run (fun i => List.mem_append_left _) hn hti hst
    fun a ha => ho a (List.mem_append_left _ ha)
  obtain ⟨p₂, s₂, he', hr'⟩ := exists_run (fun i hi => hran.same.inputs_eq ▸ hmem i hi) hnl
    (fun i hi => hran.hasTime (hmem i hi) (hl i hi))
    (fun i hi => (hran.isStale_eq (hmem i hi) (hot i hi)).trans (hsl i hi))
    (fun a ha => ho a (mem_starts_of_ends he (hran.same.levels.symm ▸ ha)))
  refine ⟨p₂, s₂, ?_, hran.trans hr' (fun i hi => hi) fun i hi hi' => hot i hi' hi⟩
  refine Act.ends_bind.mpr ⟨s.tree, s, Act.ends_tree.mpr ⟨rfl, rfl⟩, ?_⟩
  refine Act.ends_bind.mpr ⟨p₁, s₁, he, ?_⟩
  refine Act.ends_bind.mpr ⟨s₁.tree, s₁, Act.ends_tree.mpr ⟨rfl, rfl⟩, ?_⟩
  rw [hran.same.levels]
  exact he'

theorem ran_of_updateInputs (hti : ∀ i ∈ inputs l s.tree, HasTime s.tree i.path)
    (ho : ∀ a ∈ starts l s, a.Obeys l) (h : (updateInputs l (begun l s.tree)).Ends s p' s') :
    Ran l (staleAt l (begun l s.tree) s.tree) (begun l s.tree) s (inputs l s.tree) p' s' := by
  obtain ⟨t, s₁, ht, h₁⟩ := Act.ends_bind.mp h
  obtain ⟨rfl, rfl⟩ := Act.ends_tree.mp ht
  obtain ⟨p₂, s₂, he, h₂⟩ := Act.ends_bind.mp h₁
  obtain ⟨t, s₃, ht, he'⟩ := Act.ends_bind.mp h₂
  obtain ⟨rfl, rfl⟩ := Act.ends_tree.mp ht
  obtain ⟨hn, hnl, hdi⟩ := List.nodup_append.mp (nodup_inputs l s.tree)
  obtain ⟨htl, hl⟩ := List.forall_mem_append.mp hti
  have hmem : ∀ i ∈ levelsOf l s.tree, i ∈ inputs l s.tree := fun i => List.mem_append_right _
  have ho₁ : ∀ a ∈ startsIn l (begun l s.tree) s (tilesetsOf l s.tree), a.Obeys l :=
    fun a ha => ho a (List.mem_append_left _ ha)
  have hran := ran_of_ends (fun i => List.mem_append_left _) hn htl ho₁ he
  have hs : ∀ i ∈ inputs l s.tree,
      ∃ b, isStale s.tree (begun l s.tree).cache i.path (i.outputs l s.tree) = .ok b := by
    refine List.forall_mem_append.mpr
      ⟨exists_isStale_of_run (fun i => List.mem_append_left _) hn htl ho₁ he, fun i hi => ?_⟩
    rw [← hran.isStale_eq (hmem i hi) fun hi' => hdi i hi' i hi rfl]
    have ho₂ : ∀ a ∈ startsIn l p₂ s₂ (levelsOf l s₂.tree), a.Obeys l :=
      fun a ha => ho a (mem_starts_of_ends he ha)
    rw [hran.same.levels] at he' ho₂
    exact exists_isStale_of_run (fun i hi => hran.same.inputs_eq ▸ hmem i hi) hnl
      (fun i hi => hran.hasTime (hmem i hi) (hl i hi)) ho₂ he' i hi
  obtain ⟨p₃, s₃, he₃, hr₃⟩ := exists_updateInputs hti (fun i hi => isStale_eq_staleAt (hs i hi))
    fun a ha _ => ho a ha
  obtain ⟨rfl, rfl⟩ := h.unique he₃
  exact hr₃

theorem ends_updateAll {ok : Bool} : (updateAll l none).Ends s ok s' ↔ ∃ p s₁ u,
    (updateInputs l (begun l s.tree)).Ends s p s₁ ∧ (saveCache l.cache p.cache).Ends s₁ u s' ∧ p.ok = ok := by
  simp only [updateAll_none, Act.ends_bind, Act.ends_tree, Act.ends_pure]
  constructor
  · rintro ⟨t, s₁, ⟨rfl, rfl⟩, p, s₂, hp, u, s₃, hs, hok, rfl⟩
    exact ⟨p, s₂, u, hp, hs, hok⟩
  · rintro ⟨p, s₁, u, hp, hs, hok⟩
    exact ⟨s.tree, s, ⟨rfl, rfl⟩, p, s₁, hp, u, s', hs, hok, rfl⟩

theorem started_updateAll (h : (updateInputs l (begun l s.tree)).Ends s p' s') :
    ((updateAll l none).outcome s).2.started = s'.started := by
  have hs : (saveCache l.cache p'.cache >>= fun _ => (pure p'.ok : Act Bool)).Advances :=
    ((Act.delivers_makeDirectories _).advances.bind fun _ => (Act.delivers_write _ _).advances).bind fun _ =>
      Act.advances_pure _
  rw [updateAll_none, Act.outcome_bind_of_ends (Act.ends_tree.mpr ⟨rfl, rfl⟩), Act.outcome_bind_of_ends h]
  exact (hs s').1

/-- After an update that went well, all inputs are fresh in the cache that was saved. -/
theorem fresh_of_updateAll (hl : l.Stands s.tree) (ht : ∀ i ∈ inputs l s.tree, HasTime s.tree i.path)
    (ho : ∀ a ∈ starts l s, a.Obeys l) (h : (updateAll l none).Ends s true s') :
    ∃ cache, (∃ s₁ u, (saveCache l.cache cache).Ends s₁ u s') ∧
      ∀ i ∈ inputs l s'.tree, HasTime s'.tree i.path ∧ Fresh s'.tree cache i.path (i.outputs l s'.tree) := by
  obtain ⟨p, s₁, u, he, hs, hok⟩ := ends_updateAll.mp h
  have hran := ran_of_updateInputs ht ho he
  have hin := hran.same.inputs_eq
  have ht₁ : ∀ i ∈ inputs l s₁.tree, HasTime s₁.tree i.path := by
    intro i hi
    rw [hin] at hi
    exact hran.hasTime hi (ht i hi)
  obtain ⟨-, hf⟩ := hran.fresh hok
  obtain ⟨hsa, hk⟩ := sameInputs_of_saveCache (hl.grows hran.grows) ht₁ hs
  refine ⟨p.cache, ⟨s₁, u, hs⟩, fun i hi => ?_⟩
  rw [hsa.inputs_eq] at hi
  have hf := hf i (hin ▸ hi)
  refine ⟨(ht₁ i hi).congr (hsa.times i hi), ?_⟩
  rw [hsa.outputs i hi]
  exact hf.congr (hsa.times i hi) (fun path hp => hk i hi path hp (hf.hasTime path hp)) rfl

theorem not_changed_self (t : FileTree) (input : String) (outputs : List String) : ¬ Changed t t input outputs := by
  simp [Changed]

theorem Edited.exists_updateInputs {cache : Json} (h : Edited l t s.tree) (hc : loadCache t l.cache = cache)
    (hf : ∀ i ∈ inputs l t, Fresh t cache i.path (i.outputs l t))
    (ho : ∀ a ∈ starts l s,
      Changed t s.tree a.input.path (a.input.outputs l s.tree) → a.Obeys l) :
    ∃ p' s', (updateInputs l (begun l s.tree)).Ends s p' s' ∧
      Ran l (fun i => decide (Changed t s.tree i.path (i.outputs l s.tree))) (begun l s.tree) s (inputs l s.tree)
        p' s' := by
  have hb : (begun l s.tree).cache = cache := h.cache.trans hc
  apply Assets.exists_updateInputs
  · intro i hi
    exact h.present i (h.inputs_eq ▸ hi)
  · intro i hi
    have hi := h.inputs_eq ▸ hi
    rw [hb, h.outputs i hi]
    exact (hf i hi).isStale_eq (h.present i hi) (h.times i hi)
  · intro a ha hch
    exact ho a ha (of_decide_eq_true hch)

/-- A project with all its inputs in one directory. -/
def flat : Layout := ⟨"/", "/l", "/l"⟩

/-- A project whose tileset is fresh, although nothing can be made of it, and whose level was never made. -/
def halfMade : Session where
  tree :=
    { root := []
      directories := [["l"], ["build"], ["gen"], ["gen", "assets"], ["gen", "include"], ["gen", "include", "tilesets"],
        ["gen", "src"], ["gen", "src", "tilesets"], ["gen", "analysis"], ["gen", "analysis", "tilesets"]]
      files := [
        (["l", "a.lvl"], fileOfLines ["LEVEL name=a w=0 h=0 start=R:S", "TILES", ". 0", "END", "ROOM R", "SPAWNS",
          "S 0,0", "END", "ENDROOM"]),
        (["l", "a.tset"], fileOfLines []),
        (["gen", "assets", "a.bin"], fileOfLines []),
        (["gen", "include", "tilesets", "a_tset_ids.h"], fileOfLines []),
        (["gen", "include", "tilesets", "a_tset-blob.h"], fileOfLines []),
        (["gen", "src", "tilesets", "a_tset.c"], fileOfLines []),
        (["gen", "analysis", "tilesets", "a.sym"], fileOfLines []),
        (["gen", "analysis", "tilesets", "a.json"], fileOfLines []),
        (["build", ".asset_cache.json"], ⟨.json 2 (.obj [("/l/a.tset", .obj [("input_mtime", .int 5),
          ("outputs", .obj ((pathsOf "/" "a" (tilesetKinds false)).map fun path => (path, .int 5)))])]), 5⟩)] }

/-- The project with its tileset touched and an output of it deleted. -/
def withoutBlob (s : Session) : Session :=
  { s with tree := (s.tree.setModified ["l", "a.tset"] 8).remove ["gen", "assets", "a.bin"] }

/-- The inputs, their outputs and the place of the cache are the same in the project that was edited. -/
def Touched (s : Session) : Prop :=
  tilesetsOf flat (withoutBlob s).tree = tilesetsOf flat s.tree ∧
    levelsOf flat (withoutBlob s).tree = levelsOf flat s.tree ∧
    (∀ i ∈ inputs flat s.tree, i.outputs flat (withoutBlob s).tree = i.outputs flat s.tree ∧
      HasTime (withoutBlob s).tree i.path ∧
      ∀ path ∈ i.outputs flat s.tree, (timeOf (withoutBlob s).tree path).toBool = true) ∧
    s.tree.locate flat.cache = .ok ["build", ".asset_cache.json"] ∧
    (withoutBlob s).tree.locate flat.cache = .ok ["build", ".asset_cache.json"]

instance (s : Session) : Decidable (Touched s) :=
  inferInstanceAs (Decidable (_ ∧ _))

-- All is told in one evaluation, since each one would run the level compiler again.
set_option maxRecDepth 10000 in
theorem run_halfMade : (∀ i ∈ inputs flat halfMade.tree, HasTime halfMade.tree i.path) ∧
    (starts flat halfMade).map (·.input) = [.level "/l/a.lvl"] ∧ (∀ a ∈ starts flat halfMade, a.Obeys flat) ∧
    ((updateAll flat none).outcome halfMade).1 = .ok true ∧
    Touched ((updateAll flat none).outcome halfMade).2 ∧
    (∀ a ∈ starts flat (withoutBlob ((updateAll flat none).outcome halfMade).2), a.Obeys flat) ∧
    ((inputs flat (withoutBlob ((updateAll flat none).outcome halfMade).2).tree).filter fun i =>
      Changed ((updateAll flat none).outcome halfMade).2.tree
        (withoutBlob ((updateAll flat none).outcome halfMade).2).tree i.path
        (i.outputs flat (withoutBlob ((updateAll flat none).outcome halfMade).2).tree)) =
      [.tileset "/l/a.tset"] := by
  decide +kernel

theorem stands_halfMade : flat.Stands halfMade.tree :=
  ⟨by decide, .inl (by decide), .inl (by decide)⟩

theorem words_flat (t : FileTree) :
    (Input.tileset "/l/a.tset").words flat t = ["/l/a.tset", "-o", "/gen/assets/a.bin"] := by
  have hb : Path.join "/" ("gen/assets" ++ "/" ++ Path.stem "/l/a.tset" ++ ".bin") = "/gen/assets/a.bin" := by
    decide
  simp [Input.words, tilesetOutputs, pathsOf, tilesetKinds, flat, ← hb]

theorem Touched.edited (h : Touched s)
    (hc : ∃ place cache time, s.tree.locate flat.cache = .ok place ∧
      s.tree.fileAt? place = some ⟨.json 2 cache, time⟩) : Edited flat s.tree (withoutBlob s).tree := by
  obtain ⟨htilesets, hlevels, hinputs, hplace, hplace'⟩ := h
  refine ⟨htilesets, hlevels, fun i hi => (hinputs i hi).1, fun i hi => (hinputs i hi).2.1, fun i hi path hp => ?_, ?_⟩
  · have htime := (hinputs i hi).2.2 path hp
    cases ht : timeOf (withoutBlob s).tree path with
    | error e => simp [ht, Except.toBool] at htime
    | ok time => exact ⟨time, rfl⟩
  · obtain ⟨place, cache, time, hp, hf⟩ := hc
    obtain rfl := Except.ok.inj (hplace.symm.trans hp)
    have hf' : (withoutBlob s).tree.fileAt? ["build", ".asset_cache.json"] = some ⟨.json 2 cache, time⟩ := by
      rw [withoutBlob, FileTree.fileAt?_remove, if_neg (by decide), FileTree.fileAt?_setModified, if_neg (by decide), hf]
    rw [loadCache_eq hplace hf, loadCache_eq hplace' hf']

def lone : Session where
  tree := { root := [], directories := [], files := [(["a.lvl"], fileOfLines [])] }

/-- A layout in which the way to the levels leads through the directory of the cache. -/
def throughCache : Layout := ⟨"/", "/build/..", "/l"⟩

end Assets

end EscapeRoom
