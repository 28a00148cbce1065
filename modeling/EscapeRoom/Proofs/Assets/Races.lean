import EscapeRoom.Proofs.Assets.Blobs

/-!
# Saves while a compiler runs

An input may be saved after its compiler has read it and before its times are recorded. The cache then has the time
of the save together with the outputs of the text before it, and the input seems fresh. So the next update does not
start its compiler again, unless the compiler has failed or the saved text has outputs that were not recorded.
-/

namespace EscapeRoom.Assets

open EscapeRoom.Path FileTree

section Record

variable {t t' : FileTree} {cache cache' : Json} {input : String} {outputs outputs' : List String}

theorem map_fst_of_mapM {times : List (String × Json)}
    (h : outputs.mapM (fun p => do return (p, .real (← timeOf t p)) : String → Except Crash (String × Json)) =
      .ok times) : times.map (·.1) = outputs := by
  induction outputs generalizing times with
  | nil =>
    obtain rfl := Except.ok.inj h
    rfl
  | cons p outputs ih =>
    rw [List.mapM_cons] at h
    obtain ⟨e, he, h⟩ := except_bind_eq_ok.mp h
    obtain ⟨time, -, he⟩ := except_bind_eq_ok.mp he
    obtain ⟨rest, hr, h⟩ := except_bind_eq_ok.mp h
    rw [← Except.ok.inj h, ← Except.ok.inj he, List.map_cons, ih hr]

theorem get?_ofEntries_of_not_mem {ν : Type} {entries : List (String × ν)} {key : String} (h : key ∉ entries.map (·.1)) :
    Table.get? (Table.ofEntries entries) key = none := by
  suffices hs : ∀ t : Table String ν, Table.get? t key = none →
      Table.get? (entries.foldl (fun t e => Table.put t e.1 e.2) t) key = none from hs [] rfl
  induction entries with
  | nil => exact fun t ht => ht
  | cons e entries ih =>
    rw [List.map_cons, List.mem_cons, not_or] at h
    intro t ht
    refine ih h.2 _ ?_
    rw [Table.get?_put, if_neg (Ne.symm h.1), ht]

theorem subset_of_record (h : record t cache input outputs = .ok cache') (hf : Fresh t' cache' input outputs') :
    outputs' ⊆ outputs := by
  obtain ⟨entry, he, h⟩ := except_bind_eq_ok.mp h
  obtain ⟨time, -, he⟩ := except_bind_eq_ok.mp he
  obtain ⟨times, ht, he⟩ := except_bind_eq_ok.mp he
  obtain rfl := Except.ok.inj he
  cases cache with
  | obj members =>
    obtain rfl := Except.ok.inj h
    obtain ⟨entry, v, cached, hm, -, hc, -, hn⟩ := hf
    simp only [member, Table.getD, Table.get?_put, if_true, Option.getD_some, Except.ok.injEq] at hm
    subst hm
    obtain rfl : .obj (Table.ofEntries times) = cached := Except.ok.inj hc
    intro p hp
    by_contra hnot
    obtain ⟨w, hw, time, -, -, hs⟩ := hn p hp
    rw [← map_fst_of_mapM ht] at hnot
    simp only [member, Table.getD, get?_ofEntries_of_not_mem hnot, Option.getD_none, Except.ok.injEq] at hw
    subst hw
    cases hs
  | null => cases h
  | bool _ => cases h
  | int _ => cases h
  | real _ => cases h
  | str _ => cases h
  | arr _ => cases h

theorem Fresh.subset (h : Fresh t cache input outputs) (hs : outputs' ⊆ outputs) :
    Fresh t cache input outputs' := by
  obtain ⟨entry, v, cached, he, hv, hc, hn, hno⟩ := h
  exact ⟨entry, v, cached, he, hv, hc, hn, fun p hp => hno p (hs hp)⟩

theorem Fresh.isStale_self (h : Fresh t cache input outputs) : isStale t cache input outputs = .ok false := by
  rw [h.isStale_eq h.hasTime_input fun path hp => ?_, decide_eq_false (not_changed_self t input outputs)]
  obtain ⟨time, ht, -⟩ := h.hasTime path hp
  exact ⟨time, ht⟩

end Record

section Untouched

variable {l : Layout} {i : Input} {p p' p'' : Progress} {s s' s'' : Session} {turns : List Input} {a : Start}

def Input.Alone (l : Layout) (t : FileTree) (i : Input) : Prop :=
  ∀ j ∈ inputs l t, j ≠ i → ∀ path ∈ i.outputs l t, path ∉ j.outputs l t

instance (l : Layout) (t : FileTree) (i : Input) : Decidable (i.Alone l t) :=
  inferInstanceAs (Decidable (∀ j ∈ inputs l t, _))

theorem Input.Alone.congr {t t' : FileTree} (h : i.Alone l t) (hs : SameInputs l t t') (hi : i ∈ inputs l t) :
    i.Alone l t' := by
  intro j hj hne path hp
  rw [hs.inputs_eq] at hj
  rw [hs.outputs i hi] at hp
  rw [hs.outputs j hj]
  exact h j hj hne path hp

/-- An input, its outputs and its part of the cache are left. -/
structure Untouched (l : Layout) (i : Input) (p : Progress) (s : Session) (p' : Progress) (s' : Session) : Prop where
  entry : member p'.cache i.path (.obj []) = member p.cache i.path (.obj [])
  input : s.tree.Keeps s'.tree i.path
  outputs : ∀ path ∈ i.outputs l s.tree, HasTime s.tree path → s.tree.Keeps s'.tree path

theorem Untouched.refl (l : Layout) (p : Progress) (h : HasTime s.tree i.path) : Untouched l i p s p s := by
  have hk : ∀ path, HasTime s.tree path → s.tree.Keeps s.tree path := by
    intro path ht
    obtain ⟨place, hp, -⟩ := ht.exists_place
    exact .refl hp
  exact ⟨rfl, hk _ h, fun path _ => hk path⟩

theorem Untouched.outputs_eq (h : Untouched l i p s p' s') : i.outputs l s'.tree = i.outputs l s.tree :=
  i.outputs_congr l h.input.text

theorem Untouched.trans (h : Untouched l i p s p' s') (h' : Untouched l i p' s' p'' s'') :
    Untouched l i p s p'' s'' := by
  refine ⟨h'.entry.trans h.entry, h.input.trans h'.input, fun path hp ht => ?_⟩
  have hk := h.outputs path hp ht
  exact hk.trans (h'.outputs path (h.outputs_eq ▸ hp) (ht.congr (timeOf_congr hk)))

theorem Untouched.fresh (h : Untouched l i p s p' s') (hf : Fresh s.tree p.cache i.path (i.outputs l s.tree)) :
    Fresh s'.tree p'.cache i.path (i.outputs l s'.tree) := by
  rw [h.outputs_eq]
  exact hf.congr (timeOf_congr h.input)
    (fun path hp => timeOf_congr (h.outputs path hp (hf.hasTime path hp))) h.entry

theorem Turn.untouched {j : Input} (h : Turn l j p s p' s') (hl : l.Fits s.tree) (hj : j ∈ inputs l s.tree)
    (hi : i ∈ inputs l s.tree) (hne : j ≠ i) (ha : i.Alone l s.tree) (ht : HasTime s.tree i.path) :
    Untouched l i p s p' s' := by
  refine ⟨h.member_eq hl hj (fun heq => hne (eq_of_path_eq hi hj heq).symm) _, h.worked.keeps hl hi ht, ?_⟩
  intro path hp hth
  exact keeps_output hl h.adds hp (ha j hj hne path hp) hth

theorem untouched_turns (hl : l.Fits s.tree) (ht : ∀ j ∈ inputs l s.tree, HasTime s.tree j.path)
    (hi : i ∈ inputs l s.tree) (hal : i.Alone l s.tree) (htu : ∀ j ∈ turns, j ∈ inputs l s.tree ∧ j ≠ i)
    (hn : ∀ a ∈ startsIn l p s turns, a.input.Named a.before.tree)
    (h : (turns.foldlM (updateInput l) p).Ends s p' s') : Untouched l i p s p' s' := by
  induction turns generalizing p s with
  | nil =>
    obtain ⟨rfl, rfl⟩ := Act.ends_pure.mp h
    exact .refl l p (ht i hi)
  | cons j turns ih =>
    rw [List.foldlM_cons] at h
    obtain ⟨p₁, s₁, he, hr⟩ := Act.ends_bind.mp h
    rw [List.forall_mem_cons] at htu
    obtain ⟨⟨hj, hne⟩, htu⟩ := htu
    have htr := turn_of_ends hl hj (fun h => hn ⟨j, s⟩ (mem_startsIn_of_stale h)) he
    have hs := htr.worked.sameInputs hl ht
    have hin := hs.inputs_eq
    refine (htr.untouched hl hj hi hne hal (ht i hi)).trans (ih (hl.worked htr.worked)
      (hs.hasTime ht) (hin ▸ hi) (hal.congr hs hi) ?_
      (fun a ha => hn a (mem_startsIn_of_ends he ha)) hr)
    exact fun k hk => ⟨hin ▸ (htu k hk).1, (htu k hk).2⟩

/-- Saving the cache leaves an input, and the next update begins with that cache. -/
theorem untouched_saveCache (hl : l.Fits s.tree) (hi : i ∈ inputs l s.tree) (ht : HasTime s.tree i.path) {u : Unit}
    (h : (saveCache l.cache p.cache).Ends s u s') : Untouched l i p s (begun l s'.tree) s' := by
  obtain ⟨here, hr, hd⟩ := isDirectory_iff.mp hl.rootThere
  have htr := tree_of_saveCache hr hd h
  refine ⟨?_, ?_, fun path hp hth => ?_⟩
  · rw [begun, loadCache_of_saveCache h]
  · rw [htr]
    exact keeps_savedIn ht fun place hpl => place_ne_of_mem_inputs hi hpl
  · rw [htr]
    exact keeps_savedIn hth fun place hpl => place_ne_of_mem_outputs hp hr hpl

/-- An input that is fresh is not started, and its outputs are left, whether it has a turn or not. -/
theorem not_started_of_fresh (hl : l.Fits s.tree) (ht : ∀ j ∈ inputs l s.tree, HasTime s.tree j.path)
    (hi : i ∈ inputs l s.tree) (hal : i.Alone l s.tree) (htu : ∀ j ∈ turns, j ∈ inputs l s.tree)
    (hn : ∀ a ∈ startsIn l p s turns, a.input.Named a.before.tree)
    (hf : Fresh s.tree p.cache i.path (i.outputs l s.tree))
    (h : (turns.foldlM (updateInput l) p).Ends s p' s') :
    (∀ a ∈ startsIn l p s turns, a.input ≠ i) ∧ Untouched l i p s p' s' := by
  induction turns generalizing p s with
  | nil =>
    obtain ⟨rfl, rfl⟩ := Act.ends_pure.mp h
    exact ⟨fun a ha => absurd ha List.not_mem_nil, .refl l p (ht i hi)⟩
  | cons j turns ih =>
    rw [List.foldlM_cons] at h
    obtain ⟨p₁, s₁, he, hr⟩ := Act.ends_bind.mp h
    rw [List.forall_mem_cons] at htu
    have htr := turn_of_ends hl htu.1 (fun h => hn ⟨j, s⟩ (mem_startsIn_of_stale h)) he
    have hs := htr.worked.sameInputs hl ht
    have hin := hs.inputs_eq
    have hle : Untouched l i p s p₁ s₁ := by
      by_cases hne : j = i
      · subst hne
        obtain ⟨rfl, rfl⟩ := he.unique (ends_updateInput (ends_update_fresh hf.isStale_self))
        exact .refl l _ (ht j hi)
      · exact htr.untouched hl htu.1 hi hne hal (ht i hi)
    obtain ⟨hst, hr⟩ := ih (hl.worked htr.worked) (hs.hasTime ht) (hin ▸ hi)
      (hal.congr hs hi) (fun k hk => hin ▸ htu.2 k hk)
      (fun a ha => hn a (mem_startsIn_of_ends he ha)) (hle.fresh hf) hr
    refine ⟨fun a ha => ?_, hle.trans hr⟩
    rcases mem_startsIn_cons ha with ⟨rfl, hsl⟩ | ⟨p₂, s₂, he', ha⟩
    · rintro rfl
      cases hf.isStale_self.symm.trans hsl
    · obtain ⟨rfl, rfl⟩ := he.unique he'
      exact hst a ha

theorem worked_of_mem_startsIn (hl : l.Fits s.tree) (ht : ∀ j ∈ turns, j ∈ inputs l s.tree)
    (hn : ∀ a ∈ startsIn l p s turns, a.input.Named a.before.tree) (ha : a ∈ startsIn l p s turns) :
    Worked l s.tree a.before.tree := by
  induction turns generalizing p s with
  | nil => cases ha
  | cons j turns ih =>
    rw [List.forall_mem_cons] at ht
    rcases mem_startsIn_cons ha with ⟨rfl, -⟩ | ⟨p₁, s₁, he, ha⟩
    · exact .refl l _
    · have hw := worked_turn hl ht.1 fun h => hn ⟨j, s⟩ (mem_startsIn_of_stale h)
      rw [he] at hw
      refine hw.trans (ih (hl.worked hw) ?_ (fun b hb => hn b (mem_startsIn_of_ends he hb)) ha)
      rw [hw.inputs_eq hl]
      exact ht.2

theorem started_or_fresh (hl : l.Fits s.tree) (hti : ∀ j ∈ inputs l s.tree, HasTime s.tree j.path)
    (hal : i.Alone l s.tree) (htu : ∀ j ∈ turns, j ∈ inputs l s.tree) (hi : i ∈ turns)
    (hn : ∀ a ∈ startsIn l p s turns, a.input.Named a.before.tree)
    (h : (turns.foldlM (updateInput l) p).Ends s p' s') : (∃ a ∈ startsIn l p s turns, a.input = i) ∨
      ∃ p₁ s₁, Untouched l i p s p₁ s₁ ∧ Fresh s₁.tree p₁.cache i.path (i.outputs l s₁.tree) := by
  obtain ⟨before, after, rfl, hnot⟩ := List.eq_append_cons_of_mem hi
  have ht' : ∀ j ∈ before, j ∈ inputs l s.tree ∧ j ≠ i := fun j hj =>
    ⟨htu j (List.mem_append_left _ hj), fun heq => hnot (heq ▸ hj)⟩
  have hn' : ∀ a ∈ startsIn l p s before, a.input.Named a.before.tree := fun a ha =>
    hn a (mem_startsIn_append.mpr (.inl ha))
  rw [List.foldlM_append] at h
  obtain ⟨p₁, s₁, he, hr⟩ := Act.ends_bind.mp h
  have hle := untouched_turns hl hti (htu i hi) hal ht' hn' he
  rw [List.foldlM_cons] at hr
  obtain ⟨p₂, s₂, htr, -⟩ := Act.ends_bind.mp hr
  obtain ⟨t, s₁', ht, hu⟩ := Act.ends_bind.mp htr
  obtain ⟨rfl, rfl⟩ := Act.ends_tree.mp ht
  obtain ⟨stale, hs⟩ := exists_isStale_of_ends hu
  cases stale with
  | true => exact .inl ⟨⟨i, s₁⟩, mem_startsIn_append.mpr (.inr ⟨p₁, s₁, he, mem_startsIn_of_stale hs⟩), rfl⟩
  | false =>
    have htm := (hti i (htu i hi)).congr (timeOf_congr hle.input)
    exact .inr ⟨p₁, s₁, hle, fresh_of_isStale htm hs⟩

end Untouched

/-! An update while an editor saves -/

/-- An input has its turn, with pauses in its compiler. -/
def updateInputPausing (l : Layout) (pause : Nat → Act Unit) (p : Progress) (i : Input) : Act Progress := do
  let t ← Act.tree
  update p i.path (i.outputs l t) (Act.start i.tool (i.commandPausing pause) (i.words l t))

theorem updateInputPausing_pure (l : Layout) : updateInputPausing l (fun _ => pure ()) = updateInput l := by
  funext p i
  rw [updateInputPausing, i.commandPausing_pure, updateInput]

/-- The end of an update in which inputs are saved while the compiler of one of them runs. It does not matter what
has happened before the turn of this input, and nothing is saved after it. -/
structure Interleaving (l : Layout) (i : Input) where
  /-- What is saved in each pause of the compiler. -/
  saves : Nat → List Save
  p₀ : Progress
  s₀ : Session
  p₁ : Progress
  s₁ : Session
  /-- The inputs that have a turn after this one. -/
  rest : List Input
  p₂ : Progress
  s₂ : Session
  s₃ : Session
  fits : l.Fits s₀.tree
  mem : i ∈ inputs l s₀.tree
  named : i.Named s₀.tree
  stale : isStale s₀.tree p₀.cache i.path (i.outputs l s₀.tree) = .ok true
  saved : ∀ n, ∀ e ∈ saves n, ∃ j ∈ inputs l s₀.tree, e.path = j.path
  turn : (updateInputPausing l (fun n => saveAll (saves n)) p₀ i).Ends s₀ p₁ s₁
  /-- The cache has not had the new time of the input. -/
  new : ∀ entry v, member p₀.cache i.path (.obj []) = .ok entry → member entry "input_mtime" .null = .ok v →
    ¬ Notes v s₁.tree i.path
  times : ∀ j ∈ inputs l s₁.tree, HasTime s₁.tree j.path
  alone : i.Alone l s₁.tree
  others : ∀ j ∈ rest, j ∈ inputs l s₁.tree ∧ j ≠ i
  othersNamed : ∀ a ∈ startsIn l p₁ s₁ rest, a.input.Named a.before.tree
  turns : (rest.foldlM (updateInput l) p₁).Ends s₁ p₂ s₂
  cached : (saveCache l.cache p₂.cache).Ends s₂ () s₃

namespace Interleaving

variable {l : Layout} {i : Input} (c : Interleaving l i)

def code : Int :=
  Act.exitCode ((i.commandPausing (fun n => saveAll (c.saves n)) (i.words l c.s₀.tree)).outcome c.s₀).1

theorem built : Built Place.IsInput (i.outputs l c.s₀.tree) c.s₀
    ((i.commandPausing (fun n => saveAll (c.saves n)) (i.words l c.s₀.tree)).outcome c.s₀) := by
  refine i.built c.fits.root c.fits.rootThere (isAbsolute_of_mem_inputs c.fits c.mem) c.named (fun _ h => h) fun n => ?_
  refine builds_saveAll (fun e he t place hp => ?_) l.root
  obtain ⟨j, hj, heq⟩ := c.saved n e he
  exact isInput_of_mem_inputs hj (heq ▸ hp)

/-- The compiler has failed, or the times are recorded with the outputs that were predicted before it was started. -/
theorem turn_cases : c.s₀.tree.Adds Place.IsInput (i.outputs l c.s₀.tree) c.s₁.tree ∧
    (c.code ≠ 0 ∧ c.p₁.cache = c.p₀.cache ∨
      c.code = 0 ∧ (∀ path ∈ i.outputs l c.s₀.tree, HasTime c.s₁.tree path) ∧
        record c.s₁.tree c.p₀.cache i.path (i.outputs l c.s₀.tree) = .ok c.p₁.cache) := by
  obtain ⟨t, s, ht, hu⟩ := Act.ends_bind.mp c.turn
  obtain ⟨rfl, rfl⟩ := Act.ends_tree.mp ht
  obtain ⟨s, he, htr, -⟩ := Act.exists_ends_start i.tool
    (i.commandPausing fun n => saveAll (c.saves n)) (i.words l c.s₀.tree) c.s₀
  have hb := c.built
  by_cases hc : c.code = 0
  · have he : (Act.start i.tool (i.commandPausing fun n => saveAll (c.saves n))
        (i.words l c.s₀.tree)).Ends c.s₀ 0 s := hc ▸ he
    obtain ⟨cache, hr, hp, hs⟩ := record_of_ends c.stale he hu
    rw [hs, hp, htr]
    refine ⟨hb.adds, .inr ⟨hc, fun path hpa => ?_, htr ▸ hr⟩⟩
    exact hasTime_of_hasSince (hb.made (hb.code hc) path hpa) c.fits.clock
  · obtain ⟨hp, hs⟩ := hu.unique (ends_update_failed c.stale he hc)
    rw [hs, hp, htr]
    exact ⟨hb.adds, .inl ⟨hc, rfl⟩⟩

theorem fits₁ : l.Fits c.s₁.tree :=
  c.fits.adds c.turn_cases.1

theorem mem₁ : i ∈ inputs l c.s₁.tree := by
  have ha := c.turn_cases.1
  rw [inputs, tilesetsOf, ha.glob_eq c.fits.tilesets.2 (by decide) (fun name hn => by simp [FileTree.isInputName, hn]),
    levelsOf, ha.glob_eq c.fits.levels.2 (by decide) (fun name hn => by simp [FileTree.isInputName, hn])]
  exact c.mem

/-- When the input is fresh later by what its turn has left, the compiler has ended well and has made all outputs of
what was saved. -/
theorem code_of_fresh {p : Progress} {s : Session} (hl : Untouched l i c.p₁ c.s₁ p s)
    (hf : Fresh s.tree p.cache i.path (i.outputs l s.tree)) :
    c.code = 0 ∧ i.outputs l c.s₁.tree ⊆ i.outputs l c.s₀.tree := by
  have hf : Fresh s.tree c.p₁.cache i.path (i.outputs l s.tree) :=
    hf.congr rfl (fun _ _ => rfl) hl.entry.symm
  rcases c.turn_cases.2 with ⟨-, hc⟩ | ⟨hco, -, hr⟩
  · obtain ⟨entry, v, cached, he, hv, -, hn, -⟩ := hf
    rw [hc] at he
    exact absurd (hn.congr (timeOf_congr hl.input).symm) (c.new entry v he hv)
  · rw [← hl.outputs_eq]
    exact ⟨hco, subset_of_record hr hf⟩

theorem fresh (hc : c.code = 0) (hs : i.outputs l c.s₁.tree ⊆ i.outputs l c.s₀.tree) :
    Fresh c.s₁.tree c.p₁.cache i.path (i.outputs l c.s₁.tree) := by
  rcases c.turn_cases.2 with ⟨hne, -⟩ | ⟨-, ho, hr⟩
  · exact absurd hc hne
  · exact (fresh_of_record c.stale (c.times i c.mem₁) ho hr).1.subset hs

theorem handed_on : l.Fits c.s₃.tree ∧ (∀ j ∈ inputs l c.s₃.tree, HasTime c.s₃.tree j.path) ∧ i ∈ inputs l c.s₃.tree ∧
    i.Alone l c.s₃.tree ∧ Untouched l i c.p₁ c.s₁ (begun l c.s₃.tree) c.s₃ := by
  have hw : Worked l c.s₁.tree c.s₂.tree := by
    have hw := worked_turns c.fits₁ (fun j hj => (c.others j hj).1) c.othersNamed
    rwa [c.turns] at hw
  have hl₂ := c.fits₁.worked hw
  have hs₂ := hw.sameInputs c.fits₁ c.times
  have ht₂ := hs₂.hasTime c.times
  have hi₂ : i ∈ inputs l c.s₂.tree := by
    rw [hs₂.inputs_eq]
    exact c.mem₁
  have hs₃ := (sameInputs_of_saveCache hl₂.stands ht₂ c.cached).1
  have hr : c.s₂.tree.Renews c.s₃.tree := by
    have hr := renews_saveCache hl₂.rootThere c.p₂.cache
    rwa [c.cached] at hr
  have hi₃ : i ∈ inputs l c.s₃.tree := by
    rw [hs₃.inputs_eq]
    exact hi₂
  refine ⟨hl₂.grows hr.grows hr.clock, hs₃.hasTime ht₂, hi₃,
    (c.alone.congr hs₂ c.mem₁).congr hs₃ hi₂, ?_⟩
  exact (untouched_turns c.fits₁ c.times c.mem₁ c.alone c.others c.othersNamed c.turns).trans
    (untouched_saveCache hl₂ hi₂ (ht₂ i hi₂) c.cached)

end Interleaving

/-! A level that is saved when its compiler has written everything -/

def resavedLevel : Content :=
  (fileOfLines ["LEVEL name=a w=2 h=1 start=R:S tset=b.tset", "ROOM R", "SPAWNS", "S 0,0", "MAP", "..",
    "ENDROOM"]).content

/-- The save that comes when the outputs are written. -/
def resaves (n : Nat) : List Save :=
  if n = 11 then [⟨"/l/a.lvl", resavedLevel, 9⟩] else []

/-- The request after the cache is saved starts no compiler, though the level has a turn. -/
def Unnoticed (r : Except Ending Unit × Session) : Prop :=
  r.1 = .ok () ∧
  (∀ j ∈ (Request.all (some "/l/a.lvl")).tilesetsIn flat r.2.tree, j ∈ inputs flat r.2.tree) ∧
  .level "/l/a.lvl" ∈ (Request.all (some "/l/a.lvl")).turns flat r.2.tree ∧
  ((Request.all (some "/l/a.lvl")).starts flat r.2).length = 0 ∧
  (((Request.all (some "/l/a.lvl")).run flat).outcome r.2).1 = .ok true

instance (r : Except Ending Unit × Session) : Decidable (Unnoticed r) :=
  inferInstanceAs (Decidable (_ ∧ _))

def LosesSave (r : Except Ending Progress × Session) : Prop :=
  ∃ p ∈ r.1.toOption, r.2.tree.bytes "/l/a.lvl" = .ok resavedLevel.bytes ∧
    (∀ j ∈ inputs flat r.2.tree, HasTime r.2.tree j.path) ∧ (Input.level "/l/a.lvl").Alone flat r.2.tree ∧
    Unnoticed ((saveCache flat.cache p.cache).outcome r.2)

instance (r : Except Ending Progress × Session) : Decidable (LosesSave r) :=
  inferInstanceAs (Decidable (∃ p ∈ r.1.toOption, _))

set_option maxRecDepth 10000 in
theorem losesSave_linked :
    (linked.tree.locate flat.cache = .error .missing ∧ .level "/l/a.lvl" ∈ inputs flat linked.tree ∧
      (Input.level "/l/a.lvl").Named linked.tree ∧
      isStale linked.tree (begun flat linked.tree).cache "/l/a.lvl"
        ((Input.level "/l/a.lvl").outputs flat linked.tree) = .ok true ∧
      linked.tree.bytes "/l/a.lvl" ≠ .ok resavedLevel.bytes) ∧
    LosesSave ((updateInputPausing flat (fun n => saveAll (resaves n)) (begun flat linked.tree)
      (.level "/l/a.lvl")).outcome linked) := by
  decide +kernel

theorem exists_lost : ∃ (c : Interleaving flat (.level "/l/a.lvl")) (s₄ : Session),
    c.saves 11 = [⟨"/l/a.lvl", resavedLevel, 9⟩] ∧ c.s₀.tree.bytes "/l/a.lvl" ≠ .ok resavedLevel.bytes ∧
    c.s₁.tree.bytes "/l/a.lvl" = .ok resavedLevel.bytes ∧
    (∀ j ∈ (Request.all (some "/l/a.lvl")).tilesetsIn flat c.s₃.tree, j ∈ inputs flat c.s₃.tree) ∧
    .level "/l/a.lvl" ∈ (Request.all (some "/l/a.lvl")).turns flat c.s₃.tree ∧
    ((Request.all (some "/l/a.lvl")).run flat).Ends c.s₃ true s₄ ∧
    (Request.all (some "/l/a.lvl")).starts flat c.s₃ = [] := by
  obtain ⟨⟨hmi, hi, hn, hst, hne⟩, p, hp, hby, hti, ha, hu⟩ := losesSave_linked
  have hb : (begun flat linked.tree).cache = .obj [] := loadCache_of_error hmi
  rcases htu : (updateInputPausing flat (fun n => saveAll (resaves n)) (begun flat linked.tree)
    (.level "/l/a.lvl")).outcome linked with ⟨r, s₁⟩
  rw [htu] at hp hby hti ha hu
  obtain rfl : r = .ok p := except_toOption_eq_some.mp hp
  rcases hsa : (saveCache flat.cache p.cache).outcome s₁ with ⟨u, s₃⟩
  rw [hsa] at hu
  obtain ⟨hok, hin, htr, hs, hr⟩ := hu
  obtain rfl : u = .ok () := hok
  rcases hru : ((Request.all (some "/l/a.lvl")).run flat).outcome s₃ with ⟨b, s₄⟩
  rw [hru] at hr
  obtain rfl : b = .ok true := hr
  refine ⟨⟨resaves, begun flat linked.tree, linked, p, s₁, [], p, s₁, s₃, fits_linked, hi, hn, hst, ?_, htu, ?_, hti,
    ha, fun _ h => absurd h List.not_mem_nil, fun _ h => absurd h List.not_mem_nil, rfl, hsa⟩, s₄, rfl, hne, hby,
    hin, htr, hru, List.length_eq_zero_iff.mp hs⟩
  · intro n e he
    refine ⟨_, hi, ?_⟩
    rw [resaves] at he
    split at he
    · rw [List.mem_singleton.mp he]
      rfl
    · cases he
  · intro entry v het hv hno
    rw [hb] at het
    obtain rfl : .obj [] = entry := Except.ok.inj het
    obtain rfl : .null = v := Except.ok.inj hv
    obtain ⟨time, -, -, hsl⟩ := hno
    cases hsl

end EscapeRoom.Assets
