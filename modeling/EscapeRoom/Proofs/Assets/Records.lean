import EscapeRoom.Proofs.Assets.Turns
import EscapeRoom.Proofs.Level.Dependence

/-!
# What the cache knows about levels

An entry of the cache is honest if it goes back to a compiler that was started and ended well: its times are those
of the level file that was read and of the outputs that were written. While files that are written get new times,
such an entry stays honest. If the level is fresh by it, the file still has the text that was compiled, and the
blob that was written is still there.
-/

namespace EscapeRoom

open Number (Double)

namespace FileTree

variable {t t' t'' : FileTree} {path : String} {place : Place}

structure Later (t t' : FileTree) : Prop where
  grows : t.Grows t'
  clock : t.clock ≤ t'.clock
  files : ∀ place, (t.fileAt? place).isSome = true → (t'.fileAt? place).isSome = true

theorem Later.refl (t : FileTree) : t.Later t :=
  ⟨.refl t, Nat.le_refl _, fun _ h => h⟩

theorem Later.trans (h : t.Later t') (h' : t'.Later t'') : t.Later t'' :=
  ⟨h.grows.trans h'.grows, Nat.le_trans h.clock h'.clock, fun place hp => h'.files place (h.files place hp)⟩

theorem Later.isFile (h : t.Later t') (hp : t.isFile path = true) : t'.isFile path = true := by
  unfold FileTree.isFile at hp ⊢
  cases hpl : t.locate path with
  | error e =>
    rw [hpl] at hp
    cases hp
  | ok place =>
    rw [hpl] at hp
    rw [h.grows.locate hpl]
    exact h.files place hp

/-- Files that are no inputs may have been written since an earlier time, and have new times then. -/
structure Renews (t t' : FileTree) : Prop extends t.Later t' where
  renewed : ∀ place, t'.fileAt? place = t.fileAt? place ∨
    ¬ place.IsInput ∧ ∀ file ∈ t'.fileAt? place, t.clock ≤ file.modified ∧ file.modified < t'.clock

theorem Renews.ofInt_ne (h : t.Renews t') (hc : t'.clock ≤ 1 <<< 53) {time : Nat} (ht : time ≠ 0)
    (hold : time < t.clock) : t'.fileAt? place = t.fileAt? place ∨
      ∀ file ∈ t'.fileAt? place, Double.ofInt file.modified ≠ Double.ofInt time := by
  rcases h.renewed place with hs | ⟨-, hnew⟩
  · exact .inl hs
  · refine .inr fun file hf heq => ?_
    obtain ⟨hlow, hh⟩ := hnew file hf
    have := Double.ofInt_injective (by omega) ht (by omega) (by omega) heq
    omega

theorem linewiseText_congr (h : t'.bytes path = t.bytes path) : t'.linewiseText path = t.linewiseText path := by
  rw [linewiseText, h, linewiseText]

theorem text_congr (h : t'.bytes path = t.bytes path) : t'.text path = t.text path := by
  rw [text, h, text]

theorem bytes_eq {file : File} (hp : t.locate path = .ok place) (hf : t.fileAt? place = some file) :
    t.bytes path = .ok file.content.bytes := by
  simp only [bytes, hp, hf]

theorem exists_file_of_linewiseText {text : String} (h : t.linewiseText path = .ok text) :
    ∃ place file, t.locate path = .ok place ∧ t.fileAt? place = some file := by
  unfold linewiseText bytes at h
  cases hp : t.locate path with
  | error e =>
    rw [hp] at h
    cases h
  | ok place =>
    rw [hp] at h
    dsimp only at h
    cases hf : t.fileAt? place with
    | some file => exact ⟨place, file, rfl, hf⟩
    | none =>
      rw [hf] at h
      cases h

end FileTree

namespace Assets

open EscapeRoom.Path FileTree

variable {l : Layout} {t t' : FileTree} {i : Input} {s s' : Session} {p p' : Progress} {cache cache' : Json}
  {path : String} {place : Place}

theorem timeOf_eq_ofInt {file : File} (hp : t.locate path = .ok place) (hf : t.fileAt? place = some file) :
    timeOf t path = .ok (.ofInt file.modified) := by
  simp only [timeOf, modified, hp, hf]

/-- A value of the cache that is the time of a path in two trees is one time. -/
theorem Notes.ofInt_eq {v : Json} {file file' : File} (h : Notes v t path) (h' : Notes v t' path)
    (hp : t.locate path = .ok place) (hf : t.fileAt? place = some file)
    (hp' : t'.locate path = .ok place) (hf' : t'.fileAt? place = some file') :
    Double.ofInt file'.modified = Double.ofInt file.modified := by
  obtain ⟨time, ht, -, hs⟩ := h
  obtain ⟨time', ht', -, hs'⟩ := h'
  rw [timeOf_eq_ofInt hp hf, Except.ok.injEq] at ht
  rw [timeOf_eq_ofInt hp' hf', Except.ok.injEq] at ht'
  rw [ht, ht']
  exact sameTime_unique hs' hs

theorem Worked.renews (hl : l.Fits t) (h : Worked l t t') : t.Renews t' := by
  have hf := h.files hl
  obtain ⟨paths, -, ha⟩ := h
  refine ⟨⟨ha.grows, ha.clock, fun place hp => ?_⟩, fun place => ?_⟩
  · rcases hf place with hs | ⟨-, -, file, hfi, -⟩
    · rwa [hs]
    · rw [hfi]
      rfl
  · rcases hf place with hs | ⟨hnot, -, file, hfi, hnew⟩
    · exact .inl hs
    · refine .inr ⟨hnot, fun file' hf' => ?_⟩
      rw [Option.mem_def, hfi, Option.some.injEq] at hf'
      exact hf' ▸ hnew

/-- A compiler of a level that ended well: when it was started, what it compiled, and the tree right after it with
the level file and the blob in it. -/
structure Record where
  start : Start
  compiled : Level.Compiled
  after : FileTree
  place : Place
  file : File
  blob : Place
  time : Nat

/-- The cache goes back to a record, and where the times of the record are found, what had them then is found. -/
structure Record.Holds (l : Layout) (past : List FileTree) (made : List Start) (t : FileTree) (cache : Json)
    (path : String) (r : Record) : Prop where
  started : r.start ∈ made
  input : r.start.input = .level path
  compiled : LevelCompiler.compileFile r.start.before.tree path = (.ok (some r.compiled), [])
  earlier : r.start.before.tree.Later r.after
  located : r.start.before.tree.locate path = .ok r.place
  read : r.start.before.tree.fileAt? r.place = some r.file
  left : r.after.fileAt? r.place = some r.file
  isInput : r.place.IsInput
  blobLocated : r.after.locate (levelBlob r.after l.root path) = .ok r.blob
  blobWritten : r.after.fileAt? r.blob = some ⟨.data r.compiled.blob, r.time⟩
  isOutput : ¬ r.blob.IsInput
  fresh : Fresh r.after cache path (levelOutputs r.after l.root path)
  later : r.after.Later t
  /-- The level file that was read is known from the past, so that a new time is not its time. -/
  known : ∃ t₀ ∈ past, t₀.fileAt? r.place = some r.file
  same : ∀ file ∈ t.fileAt? r.place, Double.ofInt file.modified = Double.ofInt r.file.modified →
    file.content = r.file.content
  blobSame : ∀ file ∈ t.fileAt? r.blob, Double.ofInt file.modified = Double.ofInt r.time →
    file.content = .data r.compiled.blob
  time_ne : r.time ≠ 0
  time_lt : r.time < t.clock

/-- The cache has nothing about a level, or it goes back to a record. -/
def Honest (l : Layout) (past : List FileTree) (made : List Start) (t : FileTree) (cache : Json) : Prop :=
  ∀ path : String, path.toList.getLast? = some 'l' →
    member cache path (.obj []) = .ok (.obj []) ∨ ∃ r : Record, r.Holds l past made t cache path

theorem honest_empty (l : Layout) (past : List FileTree) (made : List Start) (t : FileTree) :
    Honest l past made t (.obj []) :=
  fun _ _ => .inl rfl

section Holds

variable {past past' : List FileTree} {made made' : List Start} {r : Record}

theorem Record.Holds.step (h : r.Holds l past made t cache path) (hp : past ⊆ past') (hm : made ⊆ made')
    (hl : t.Later t') (hme : member cache' path (.obj []) = member cache path (.obj []))
    (hpl : t'.fileAt? r.place = t.fileAt? r.place ∨
      ∀ file ∈ t'.fileAt? r.place, Double.ofInt file.modified ≠ Double.ofInt r.file.modified)
    (hb : t'.fileAt? r.blob = t.fileAt? r.blob ∨
      ∀ file ∈ t'.fileAt? r.blob, Double.ofInt file.modified ≠ Double.ofInt r.time) :
    r.Holds l past' made' t' cache' path := by
  obtain ⟨t₀, ht₀, hk⟩ := h.known
  refine { h with
    started := hm h.started
    fresh := h.fresh.congr rfl (fun _ _ => rfl) hme
    later := h.later.trans hl
    known := ⟨t₀, hp ht₀, hk⟩
    same := fun file hf hs => ?_
    blobSame := fun file hf hs => ?_
    time_lt := Nat.lt_of_lt_of_le h.time_lt hl.clock }
  · rcases hpl with hke | hnew
    · exact h.same file (hke ▸ hf) hs
    · exact absurd hs (hnew file hf)
  · rcases hb with hke | hnew
    · exact h.blobSame file (hke ▸ hf) hs
    · exact absurd hs (hnew file hf)

theorem Record.Holds.renews (h : r.Holds l past made t cache path) (hr : t.Renews t')
    (hc : t'.clock ≤ 1 <<< 53) (hm : member cache' path (.obj []) = member cache path (.obj [])) :
    r.Holds l past made t' cache' path := by
  refine h.step (List.Subset.refl _) (List.Subset.refl _) hr.toLater hm ?_
    (hr.ofInt_ne hc h.time_ne h.time_lt)
  rcases hr.renewed r.place with hs | ⟨hnot, -⟩
  · exact .inl hs
  · exact absurd h.isInput hnot

theorem Honest.renews (h : Honest l past made t cache) (hre : t.Renews t') (hc : t'.clock ≤ 1 <<< 53) :
    Honest l past made t' cache := by
  intro path hp
  rcases h path hp with hn | ⟨r, hr⟩
  · exact .inl hn
  · exact .inr ⟨r, hr.renews hre hc rfl⟩

theorem Honest.mono (h : Honest l past made t cache) (hp : past ⊆ past') (hm : made ⊆ made') :
    Honest l past' made' t cache := by
  intro path hpa
  rcases h path hpa with hn | ⟨r, hr⟩
  · exact .inl hn
  · exact .inr ⟨r, hr.step hp hm (.refl t) rfl (.inl rfl) (.inl rfl)⟩

/-- A level that is fresh by a record has the text that was compiled, and the blob that it was compiled to. -/
theorem Record.Holds.shows (h : r.Holds l past made t cache path)
    (hf : Fresh t cache path (levelOutputs t l.root path)) :
    t.linewiseText path = r.start.before.tree.linewiseText path ∧
      t.bytes (levelBlob t l.root path) = .ok r.compiled.blob := by
  have hp := h.earlier.grows.locate h.located
  have hp' := h.later.grows.locate hp
  obtain ⟨file, hfi⟩ := Option.isSome_iff_exists.mp (h.later.files r.place (by rw [h.left]; rfl))
  obtain ⟨entry, v, cached, he, hv, hc, hn, hno⟩ := h.fresh
  obtain ⟨entry', v', cached', he', hv', hc', hn', hno'⟩ := hf
  obtain rfl := Except.ok.inj (he.symm.trans he')
  obtain rfl := Except.ok.inj (hv.symm.trans hv')
  obtain rfl := Except.ok.inj (hc.symm.trans hc')
  have hco := h.same file hfi (hn.ofInt_eq hn' hp h.left hp' hfi)
  have hb : t.bytes path = .ok r.file.content.bytes := by rw [bytes_eq hp' hfi, hco]
  have ho : levelOutputs t l.root path = levelOutputs r.after l.root path ∧
      levelBlob t l.root path = levelBlob r.after l.root path := by
    have ht : t.text path = r.after.text path := text_congr (hb.trans (bytes_eq hp h.left).symm)
    simp only [levelOutputs, levelBlob, levelName, ht, and_self]
  refine ⟨linewiseText_congr (hb.trans (bytes_eq h.located h.read).symm), ?_⟩
  have hmem := levelBlob_mem r.after l.root path
  obtain ⟨w, hw, hn⟩ := hno _ hmem
  rw [← ho.1] at hmem
  obtain ⟨w', hw', hn'⟩ := hno' _ hmem
  obtain rfl := Except.ok.inj (hw.symm.trans hw')
  have hbl := h.later.grows.locate h.blobLocated
  obtain ⟨file, hfi⟩ := Option.isSome_iff_exists.mp (h.later.files r.blob (by rw [h.blobWritten]; rfl))
  have hco := h.blobSame file hfi (hn.ofInt_eq hn' h.blobLocated h.blobWritten hbl hfi)
  rw [ho.2, bytes_eq hbl hfi, hco]
  rfl

theorem Fresh.member_ne {outputs : List String} (h : Fresh t cache path outputs) :
    member cache path (.obj []) ≠ .ok (.obj []) := by
  obtain ⟨entry, v, cached, he, hv, -, ⟨time, -, -, hs⟩, -⟩ := h
  intro hn
  obtain rfl := Except.ok.inj (he.symm.trans hn)
  obtain rfl := Except.ok.inj hv
  cases hs

/-! Compilers that end well leave a record -/

theorem exists_record_of_made (hl : l.Fits s.tree) (hi : .level path ∈ inputs l s.tree)
    (hn : (Input.level path).Named s.tree) (hm : ⟨.level path, s⟩ ∈ made)
    (hk : ∀ place file, place.IsInput → s.tree.fileAt? place = some file →
      ∃ t₀ ∈ past, t₀.fileAt? place = some file)
    (he : (LevelCompiler.run [path]).Ends s () s') (hw : Worked l s.tree s'.tree)
    (hf : Fresh s'.tree cache path (levelOutputs s'.tree l.root path)) :
    ∃ r : Record, r.Holds l past made s'.tree cache path := by
  have ha : isAbsolute path = true := isAbsolute_of_mem_inputs hl hi
  rw [← LevelCompiler.runPausing_pure] at he
  have ho : ∀ place : Place, False → place.IsInput := fun _ h => h.elim
  obtain ⟨c, hc, blob, time, hb, hwr, ht⟩ := blob_of_level hl.root hl.rootThere ha hn
    ho (fun _ => Act.builds_pure ()) he
  obtain ⟨text, hte⟩ := LevelCompiler.exists_text_of_compileFile hc
  obtain ⟨place, file, hp, hfi⟩ := exists_file_of_linewiseText hte
  have hin : place.IsInput := isInput_of_mem_inputs hi hp
  have hf' : s'.tree.fileAt? place = some file := (hw.fileAt?_eq hl hin).trans hfi
  have hr := hw.renews hl
  have hs : s'.tree.text path = s.tree.text path :=
    text_congr ((bytes_eq (hr.grows.locate hp) hf').trans (bytes_eq hp hfi).symm)
  have hbp : levelBlob s'.tree l.root path = levelBlob s.tree l.root path := by
    simp only [levelBlob, levelName, hs]
  have hmem : levelBlob s.tree l.root path ∈ (Input.level path).outputs l s.tree := levelBlob_mem ..
  have hou := (apart_of_mem_outputs hmem s'.tree blob (hl.worked hw).rootThere hb).1
  -- The blob was written by this compiler, since it has a time.
  have hpo : time ≠ 0 := by
    rintro rfl
    obtain ⟨entry, v, cached, -, -, -, -, hno⟩ := hf
    obtain ⟨w, -, time, ht, hz, -⟩ := hno _ (levelBlob_mem s'.tree l.root path)
    rw [hbp, timeOf_eq_ofInt hb hwr, Except.ok.injEq] at ht
    have hnt : (Double.ofInt ((0 : Nat) : Int)).isZero = true := by decide
    rw [← ht, hnt] at hz
    cases hz
  refine ⟨⟨⟨.level path, s⟩, c, s'.tree, place, file, blob, time⟩, ?_⟩
  exact {
    started := hm
    input := rfl
    compiled := hc
    earlier := hr.toLater
    located := hp
    read := hfi
    left := hf'
    isInput := hin
    blobLocated := by rw [hbp]; exact hb
    blobWritten := hwr
    isOutput := hou
    fresh := hf
    later := .refl _
    known := hk place file hin hfi
    same := fun file₁ hf₁ _ => by
      rw [Option.mem_def, hf', Option.some.injEq] at hf₁
      rw [hf₁]
    blobSame := fun file₁ hf₁ _ => by
      rw [Option.mem_def, hwr, Option.some.injEq] at hf₁
      rw [← hf₁]
    time_ne := hpo
    time_lt := ht }

theorem Turn.honest (h : Turn l i p s p' s') (hl : l.Fits s.tree) (hi : i ∈ inputs l s.tree)
    (hs : isStale s.tree p.cache i.path (i.outputs l s.tree) = .ok true →
      i.Named s.tree ∧ ⟨i, s⟩ ∈ made)
    (hk : ∀ place file, place.IsInput → s.tree.fileAt? place = some file →
      ∃ t₀ ∈ past, t₀.fileAt? place = some file)
    (hc : s'.tree.clock ≤ 1 <<< 53) (hh : Honest l past made s.tree p.cache) :
    Honest l past made s'.tree p'.cache := by
  have hw := h.worked
  have hre := hw.renews hl
  intro path hp
  by_cases hkey : path = i.path
  · subst hkey
    have hke : p'.cache = p.cache → member p'.cache i.path (.obj []) = .ok (.obj []) ∨
        ∃ r : Record, r.Holds l past made s'.tree p'.cache i.path := by
      intro hca
      rw [hca]
      exact hh.renews hre hc i.path hp
    cases h with
    | fresh _ => exact hke rfl
    | failed _ _ => exact hke rfl
    | made hst he ht _ ho hrc =>
      -- A path that ends like one of levels is that of a level.
      obtain ⟨path, rfl⟩ : ∃ path, i = .level path := by
        rcases getLast?_path hi with ⟨path, rfl, hla⟩ | ⟨path, rfl, -⟩
        · rw [Input.path, hla] at hp
          cases hp
        · exact ⟨path, rfl⟩
      have hti := hasTime_of_isStale hst
      have hkp := hw.keeps hl hi hti
      have hf := (fresh_of_record hst (hti.congr (timeOf_congr hkp)) ho hrc).1
      rw [← Input.outputs_congr l hkp.text] at hf
      obtain ⟨hn, hm⟩ := hs hst
      right
      rw [ht] at hf hw ⊢
      exact exists_record_of_made hl hi hn hm hk he hw hf
  · have hme := h.member_eq hl hi hkey (.obj [])
    rcases hh path hp with hno | ⟨r, hr⟩
    · exact .inl (hme.trans hno)
    · exact .inr ⟨r, hr.renews hre hc hme⟩

theorem honest_of_turns {turns : List Input} {t₀ : FileTree} (hl₀ : l.Fits t₀) (hw : Worked l t₀ s.tree)
    (hp : t₀ ∈ past) (ht : ∀ i ∈ turns, i ∈ inputs l s.tree)
    (hs : ∀ a ∈ startsIn l p s turns, a.input.Named a.before.tree ∧ a ∈ made)
    (h : (turns.foldlM (updateInput l) p).Ends s p' s') (hc : s'.tree.clock ≤ 1 <<< 53)
    (hh : Honest l past made s.tree p.cache) : Honest l past made s'.tree p'.cache := by
  induction turns generalizing p s with
  | nil =>
    obtain ⟨rfl, rfl⟩ := Act.ends_pure.mp h
    exact hh
  | cons i turns ih =>
    have hl := hl₀.worked hw
    have hn : ∀ a ∈ startsIn l p s (i :: turns), a.input.Named a.before.tree := fun a ha => (hs a ha).1
    rw [List.forall_mem_cons] at ht
    rw [List.foldlM_cons] at h
    obtain ⟨p₁, s₁, he, hr⟩ := Act.ends_bind.mp h
    have htu := turn_of_ends hl ht.1 (fun h => hn ⟨i, s⟩ (mem_startsIn_of_stale h)) he
    have hs₁ : ∀ a ∈ startsIn l p₁ s₁ turns, a.input.Named a.before.tree ∧ a ∈ made :=
      fun a ha => hs a (mem_startsIn_of_ends he ha)
    have hl₁ := hl.worked htu.worked
    have ht₁ : ∀ i ∈ turns, i ∈ inputs l s₁.tree := by
      rw [htu.worked.inputs_eq hl]
      exact ht.2
    have hc₁ : s₁.tree.clock ≤ s'.tree.clock := by
      have hw' := worked_turns hl₁ ht₁ fun a ha => (hs₁ a ha).1
      rw [hr] at hw'
      exact (hw'.renews hl₁).clock
    refine ih (hw.trans htu.worked) ht₁ hs₁ hr ?_
    refine htu.honest hl ht.1 (fun h => hs ⟨i, s⟩ (mem_startsIn_of_stale h)) ?_ (by omega) hh
    intro place file hpl hf
    exact ⟨t₀, hp, (hw.fileAt?_eq hl₀ hpl).symm.trans hf⟩

end Holds

end Assets

end EscapeRoom
