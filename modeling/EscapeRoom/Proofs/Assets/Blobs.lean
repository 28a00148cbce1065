import EscapeRoom.Proofs.Assets.Histories

/-!
# Blobs of a project

When an update of everything goes well after whatever has happened to a project, the blob of each level is what the
present text of the level compiles to, with its tilesets as they were when its compiler was started. A level is not
made again because a tileset that it names was saved, so its blob may be out of date.
-/

namespace EscapeRoom.Assets

open EscapeRoom.Path FileTree

variable {l : Layout} {past : List FileTree} {made : List Start} {s s' : Session} {t : FileTree} {path : String}
  {cache : Json}

theorem loadCache_of_saveCache {u : Unit} (h : (saveCache path cache).Ends s u s') : loadCache s'.tree path = cache := by
  obtain ⟨place, time, hp, hf, -⟩ := exists_saveCache_again h
  exact loadCache_eq hp hf

/-- After an update of everything that went well, the saved cache is honest and all inputs are fresh by it. -/
theorem honest_of_updateAll (h : Sound l past made s.tree) (ht : ∀ i ∈ inputs l s.tree, HasTime s.tree i.path)
    (hs : Separate l s.tree) (hn : ∀ a ∈ starts l s, a.input.Named a.before.tree)
    (he : (updateAll l none).Ends s true s') (hc : s'.tree.clock ≤ 1 <<< 53) :
    ∃ cache, Honest l (s.tree :: past) (made ++ starts l s) s'.tree cache ∧
      ∀ i ∈ inputs l s'.tree, Fresh s'.tree cache i.path (i.outputs l s'.tree) := by
  have hin : ∀ i ∈ (Request.all none).tilesetsIn l s.tree, i ∈ inputs l s.tree := by
    rw [Request.tilesetsIn_all]
    exact fun i hi => List.mem_append_left _ hi
  rw [← Request.starts_all] at hn ⊢
  have hrun : ((Request.all none).run l).outcome s = (.ok true, s') := he
  rw [Request.outcome_run h.fits hin hn] at hrun
  obtain ⟨p, s₁, htu, hr⟩ := Act.ends_bind.mp hrun
  obtain ⟨u, s₂, hsa, hre⟩ := Act.ends_bind.mp hr
  obtain ⟨hok, rfl⟩ := Act.ends_pure.mp hre
  have hn' : ∀ a ∈ startsIn l (begun l s.tree) s ((Request.all none).turns l s.tree), a.input.Named a.before.tree :=
    fun a ha => hn a ((Request.mem_starts_iff h.fits hin hn).mpr ha)
  have hw := worked_turns h.fits (Request.mem_inputs_of_mem_turns hin) hn'
  rw [htu] at hw
  have hw : Worked l s.tree s₁.tree := hw
  have hl₁ := h.fits.worked hw
  have hsm := hw.sameInputs h.fits ht
  have ht₁ := hsm.hasTime ht
  have hrn := renews_saveCache hl₁.rootThere p.cache
  rw [hsa] at hrn
  have hrn : s₁.tree.Renews s₂.tree := hrn
  have hc₁ := hrn.clock
  refine ⟨p.cache, (honest_of_request h hin hn htu (by omega)).renews hrn hc, fun i hi => ?_⟩
  rw [Request.turns_all] at htu hn'
  obtain ⟨-, hf⟩ := @fresh_of_turns l s s₁ _ p (inputs l s.tree) [] h.fits hs ht (fun i hi => hi)
    (nodup_inputs l s.tree) hn' (by simp) htu hok
  rw [(sameInputs_of_saveCache hl₁.stands ht₁ hsa).1.inputs_eq] at hi
  have hi' : i ∈ inputs l s.tree := hsm.inputs_eq ▸ hi
  exact fresh_saveCache hl₁ ht₁ hi (hf i hi') hsa

/-- After an update of everything that went well, there is a record of every level, by which it is fresh. -/
theorem History.exists_record (h : History l past made s) (ht : ∀ i ∈ inputs l s.tree, HasTime s.tree i.path)
    (hs : Separate l s.tree) (hn : ∀ a ∈ starts l s, a.input.Named a.before.tree)
    (he : (updateAll l none).Ends s true s') (hc : s'.tree.clock ≤ 1 <<< 53)
    (hp : .level path ∈ inputs l s'.tree) :
    ∃ cache, ∃ r : Record, r.Holds l (s.tree :: past) (made ++ starts l s) s'.tree cache path ∧
      s'.tree.linewiseText path = r.start.before.tree.linewiseText path ∧
      s'.tree.bytes (levelBlob s'.tree l.root path) = .ok r.compiled.blob := by
  have hl : path.toList.getLast? = some 'l' := by
    rcases getLast?_path hp with ⟨_, heq, -⟩ | ⟨_, heq, hl⟩
    · cases heq
    · cases heq
      exact hl
  have hc₀ : s.tree.clock ≤ s'.tree.clock := by
    have hla := later_request (r := .all none) h.fits (fun i hi => List.mem_append_left _ hi)
      (by rwa [Request.starts_all])
    rw [Request.run, he] at hla
    exact hla.clock
  obtain ⟨cache, hh, hf⟩ :=
    honest_of_updateAll (h.sound (by omega)) ht hs hn he hc
  have hf := hf _ hp
  rcases hh path hl with hno | ⟨r, hr⟩
  · exact absurd hno hf.member_ne
  · exact ⟨cache, r, hr, hr.shows hf⟩

def linkedTileset (id : String) : File :=
  fileOfLines ["TSET tileSize=2x2 bgColor=0 mc1Color=1 mc2Color=2", "TILES", "A id=" ++ id ++ " chars=1,2,3,4 color=5",
    "CHARMAP", ". A"]

def linkedLevel : File :=
  fileOfLines ["LEVEL name=a w=1 h=1 start=R:S tset=b.tset", "ROOM R", "SPAWNS", "S 0,0", "MAP", ".", "ENDROOM"]

def linkedTree (tileset : File) : FileTree where
  root := []
  directories := [["l"]]
  files := [
    (["l", "a.lvl"], linkedLevel),
    (["l", "b.tset"], tileset)]

def linked : Session where
  tree := linkedTree (linkedTileset "0")

def compiled? (t : FileTree) (path : String) : Option Level.Compiled :=
  match LevelCompiler.compileFile t path with
  | (.ok (some c), []) => some c
  | _ => none

theorem compiled?_eq_some {c : Level.Compiled} :
    compiled? t path = some c ↔ LevelCompiler.compileFile t path = (.ok (some c), []) := by
  unfold compiled?
  constructor
  · intro h
    split at h
    · rename_i c' heq
      rw [heq, Option.some.inj h]
    · cases h
  · intro h
    rw [h]

def tileset? (t : FileTree) (path : String) : Option LinkedTileset :=
  match t.linewiseText path with
  | .ok source =>
    match (Tileset.read ⟨path, t.isFile⟩ source).run .collecting with
    | (.ok ts, []) => some ts
    | _ => none
  | .error _ => none

theorem tileset?_eq_some {ts : LinkedTileset} : tileset? t path = some ts ↔ ∃ source,
    t.linewiseText path = .ok source ∧ (Tileset.read ⟨path, t.isFile⟩ source).Yields ts := by
  unfold tileset?
  constructor
  · intro h
    split at h
    · rename_i source hs
      split at h
      · rename_i ts' heq
        exact ⟨source, hs, by rw [Report.Yields, heq, Option.some.inj h]⟩
      · cases h
    · cases h
  · rintro ⟨source, hs, hr⟩
    rw [Report.Yields] at hr
    simp only [hs, hr]

/-- Whether the predicted outputs are made, by reading the input. -/
def Input.isNamed (t : FileTree) : Input → Bool
  | .tileset path => (tileset? t path).all fun ts =>
    ts.name == stem path && (!ts.charset.isEmpty) == namesCharset t path
  | .level path => (compiled? t path).all fun c => levelBase (levelName t path) == Level.fileBase c.level.name

theorem Input.isNamed_iff {i : Input} : i.isNamed t = true ↔ i.Named t := by
  cases i with
  | tileset path =>
    simp only [isNamed, Option.all_eq_true, tileset?_eq_some, Bool.and_eq_true, beq_iff_eq, Named]
    constructor
    · intro h source ts hs hr
      exact h ts ⟨source, hs, hr⟩
    · rintro h ts ⟨source, hs, hr⟩
      exact h source ts hs hr
  | level path => simp only [isNamed, Option.all_eq_true, compiled?_eq_some, beq_iff_eq, Named]

instance (i : Input) (t : FileTree) : Decidable (i.Named t) :=
  decidable_of_iff _ Input.isNamed_iff

theorem fits_linked : flat.Fits linked.tree := by
  refine ⟨by decide, by decide, by decide, by decide, by decide⟩

def retiled (s : Session) : Session :=
  { s with tree := s.tree.saved ["l", "b.tset"] (linkedTileset "1").content 9 }

/-- What is found before and after an update of everything that has left an old blob. -/
def Outdated (s : Session) (r : Except Ending Bool × Session) : Prop :=
  (∀ i ∈ inputs flat s.tree, HasTime s.tree i.path) ∧ Separate flat s.tree ∧
  (∀ a ∈ starts flat s, a.input.Named a.before.tree) ∧ r.1 = .ok true ∧ r.2.tree.clock ≤ 1 <<< 53 ∧
  .level "/l/a.lvl" ∈ inputs flat r.2.tree ∧ ∃ c ∈ compiled? r.2.tree "/l/a.lvl",
    ∃ blob ∈ (r.2.tree.bytes (levelBlob r.2.tree flat.root "/l/a.lvl")).toOption, blob ≠ c.blob

instance (s : Session) (r : Except Ending Bool × Session) : Decidable (Outdated s r) :=
  inferInstanceAs (Decidable (_ ∧ _))

/-- The tileset can be saved, and the next update does not make the level again. -/
def OutdatedBySave (s : Session) : Prop :=
  s.tree.locate "/l/b.tset" = .ok ["l", "b.tset"] ∧
  (s.tree.write "/l/b.tset" (linkedTileset "1").content).toOption.isSome = true ∧
  .tileset "/l/b.tset" ∈ inputs flat (retiled s).tree ∧ NewTime [s.tree, linked.tree] ["l", "b.tset"] 9 ∧
  Outdated (retiled s) ((updateAll flat none).outcome (retiled s))

instance (s : Session) : Decidable (OutdatedBySave s) :=
  inferInstanceAs (Decidable (_ ∧ _))

set_option maxRecDepth 10000 in
/-- One evaluation runs both updates, so that no session is made twice. -/
theorem outdatedBySave_linked :
    (∀ i ∈ (Request.all (some "/l/a.lvl")).tilesetsIn flat linked.tree, i ∈ inputs flat linked.tree) ∧
    (∀ a ∈ (Request.all (some "/l/a.lvl")).starts flat linked, a.input.Named a.before.tree) ∧
    OutdatedBySave (((Request.all (some "/l/a.lvl")).run flat).outcome linked).2 := by
  decide +kernel

theorem exists_outdated : ∃ past made s s', History flat past made s ∧ (updateAll flat none).Ends s true s' ∧
    Outdated s (.ok true, s') := by
  obtain ⟨hi, hn, hp, hw, hm, hnew, ho⟩ := outdatedBySave_linked
  have hb : History flat [] [] linked := by
    refine .begin fits_linked fun here hh => ?_
    obtain rfl : [] = here := Except.ok.inj hh
    rfl
  obtain ⟨t, ht⟩ := Option.isSome_iff_exists.mp hw
  have hs := (hb.update (.all (some "/l/a.lvl")) hi hn).save (i := .tileset "/l/b.tset") hp
    (except_toOption_eq_some.mp ht) hm hnew
  rcases hr : (updateAll flat none).outcome
    (retiled (((Request.all (some "/l/a.lvl")).run flat).outcome linked).2) with ⟨ok, s'⟩
  rw [hr] at ho
  obtain rfl : ok = .ok true := ho.2.2.2.1
  exact ⟨_, _, _, s', hs, hr, ho⟩

end EscapeRoom.Assets
