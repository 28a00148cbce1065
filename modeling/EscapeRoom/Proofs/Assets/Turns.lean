import EscapeRoom.Proofs.Assets.Steps

/-!
# Turns of inputs

When an input has its turn, nothing but its outputs changes, whether its compiler is started or not and however
that ends. The inputs stay what they are. After a turn that went well the input is fresh, and inputs that were
fresh before stay so if they share no output with it.
-/

namespace EscapeRoom

namespace Number.Double

variable {n : Nat}

theorem roundDiv_one (n : Nat) : roundDiv n 1 = n := by
  simp [roundDiv, Nat.mod_one]

theorem leadingBit_one (h : n ≠ 0) : leadingBit n 1 = n.log2 := by
  have hlog : 1 <<< n.log2 ≤ n := by
    rw [Nat.one_shiftLeft]
    exact Nat.log2_self_le h
  have hone : Nat.log2 1 = 0 := by decide
  have hz : (-(n.log2 : Int)).toNat = 0 := by omega
  simp [leadingBit, hlog, hone, hz]

theorem ofInt_natCast (h : n ≠ 0) (hn : n < 1 <<< 53) :
    ofInt n = .finite ⟨false, n <<< (52 - n.log2), (n.log2 : Int) - 52⟩ := by
  have hlog : n.log2 ≤ 52 := by
    rw [Nat.one_shiftLeft] at hn
    have := (Nat.log2_lt h).mpr hn
    omega
  have hs : decide ((n : Int) < 0) = false := by simp
  have hp : Max.max ((n.log2 : Int) - 52) (-1074) = (n.log2 : Int) - 52 := by omega
  have hup : (-((n.log2 : Int) - 52)).toNat = 52 - n.log2 := by omega
  have hdo : ((n.log2 : Int) - 52).toNat = 0 := by omega
  have hf : n <<< (52 - n.log2) ≠ 1 <<< 53 := by
    intro heq
    have hlt := Nat.lt_log2_self (n := n)
    rw [Nat.shiftLeft_eq, Nat.one_shiftLeft] at heq
    have : n * 2 ^ (52 - n.log2) < 2 ^ (n.log2 + 1) * 2 ^ (52 - n.log2) :=
      Nat.mul_lt_mul_of_pos_right hlt (Nat.two_pow_pos _)
    rw [← Nat.pow_add, heq] at this
    have hexp : n.log2 + 1 + (52 - n.log2) = 53 := by omega
    rw [hexp] at this
    omega
  rw [ofInt, hs, Int.natAbs_natCast, ofRatio, if_neg h]
  simp only [leadingBit_one h, hp, hup, hdo, Nat.shiftLeft_zero, roundDiv_one, if_neg hf]
  rw [if_neg (by omega)]

theorem ofInt_injective {m n : Nat} (hm : m ≠ 0) (hn : n ≠ 0) (hm' : m < 1 <<< 53) (hn' : n < 1 <<< 53)
    (h : ofInt m = ofInt n) : m = n := by
  rw [ofInt_natCast hm hm', ofInt_natCast hn hn'] at h
  simp only [Double.finite.injEq, Binary.mk.injEq, true_and] at h
  obtain ⟨hs, he⟩ := h
  have hlog : m.log2 = n.log2 := by omega
  rw [hlog, Nat.shiftLeft_eq, Nat.shiftLeft_eq] at hs
  exact Nat.eq_of_mul_eq_mul_right (Nat.two_pow_pos _) hs

theorem roundDiv_ne_zero {num den : Nat} (hden : den ≠ 0) (h : den ≤ num) : roundDiv num den ≠ 0 := by
  have hq : num / den ≠ 0 := Nat.div_ne_zero_iff.mpr ⟨hden, h⟩
  unfold roundDiv
  dsimp only
  split
  · exact hq
  · split
    · exact Nat.succ_ne_zero _
    · split
      · exact hq
      · exact Nat.succ_ne_zero _

theorem isZero_ofInt (h : n ≠ 0) : (ofInt n).isZero = false := by
  have hle : (1 <<< (Max.max ((n.log2 : Int) - 52) (-1074)).toNat) ≤ n <<< (-Max.max ((n.log2 : Int) - 52) (-1074)).toNat := by
    rw [Nat.one_shiftLeft, Nat.shiftLeft_eq]
    have hlog := Nat.log2_self_le h
    have hpow : 2 ^ (Max.max ((n.log2 : Int) - 52) (-1074)).toNat ≤ 2 ^ n.log2 :=
      Nat.pow_le_pow_right (by decide) (by omega)
    exact (hpow.trans hlog).trans (Nat.le_mul_of_pos_right _ (Nat.two_pow_pos _))
  have hone : (1 <<< (Max.max ((n.log2 : Int) - 52) (-1074)).toNat) ≠ 0 := by
    rw [Nat.one_shiftLeft]
    exact (Nat.two_pow_pos _).ne'
  rw [ofInt, Int.natAbs_natCast, ofRatio, if_neg h]
  simp only [leadingBit_one h]
  have hne := roundDiv_ne_zero hone hle
  split
  · split
    · rfl
    · rfl
  · split
    · rfl
    · simpa [isZero] using hne

end Number.Double

namespace FileTree

variable {t t' : FileTree} {others : Place → Prop} {paths : List String} {path directory pattern : String}

theorem Adds.glob_eq (h : t.Adds others paths t') (hdi : t.isDirectory directory = true)
    (hp : Glob.isPattern pattern = true)
    (hna : ∀ name, Glob.matchName pattern name = true → isInputName name = true) :
    t'.glob directory pattern = t.glob directory pattern := by
  apply h.grows.glob_eq (fun _ => hdi) hp
  intro place
  have hf : ∀ names : List String, names.filter (Glob.matchName pattern) =
      (names.filter isInputName).filter (Glob.matchName pattern) := by
    intro names
    rw [List.filter_filter]
    apply List.filter_congr
    intro name _
    cases hn : Glob.matchName pattern name with
    | false => rfl
    | true => simp [hna name hn]
  rw [hf, h.names, ← hf]

end FileTree

namespace Assets

open EscapeRoom.Path FileTree

variable {input : String} {outputs : List String}

/-- Where a project lies: commands run in its root, and its directories are there. -/
structure Layout.Fits (l : Layout) (t : FileTree) : Prop where
  root : l.root = t.rootPath
  rootThere : t.isDirectory l.root = true
  levels : isAbsolute l.levels = true ∧ t.isDirectory l.levels = true
  tilesets : isAbsolute l.tilesets = true ∧ t.isDirectory l.tilesets = true
  clock : 0 < t.clock

/-- Outputs of inputs were written, and nothing else has changed. -/
def Worked (l : Layout) (t t' : FileTree) : Prop :=
  ∃ paths, (∀ p ∈ paths, ∃ (i : Input) (t₁ : FileTree), p ∈ i.outputs l t₁) ∧ t.Adds (fun _ => False) paths t'

variable {l : Layout} {t t' t'' : FileTree} {i j : Input} {s s' : Session} {p p' : Progress} {place : Place}

theorem Layout.Fits.grows (h : l.Fits t) (hg : t.Grows t') (hc : t.clock ≤ t'.clock) : l.Fits t' := by
  refine ⟨?_, hg.isDirectory h.rootThere, ⟨h.levels.1, hg.isDirectory h.levels.2⟩,
    ⟨h.tilesets.1, hg.isDirectory h.tilesets.2⟩, Nat.lt_of_lt_of_le h.clock hc⟩
  rw [h.root, rootPath, rootPath, hg.root]

theorem Layout.Fits.adds {others : Place → Prop} {paths : List String} (h : l.Fits t) (ha : t.Adds others paths t') :
    l.Fits t' :=
  h.grows ha.grows ha.clock

theorem Worked.refl (l : Layout) (t : FileTree) : Worked l t t :=
  ⟨[], by simp, .refl _ _ _⟩

theorem Worked.trans (h : Worked l t t') (h' : Worked l t' t'') : Worked l t t'' := by
  obtain ⟨paths, hp, ha⟩ := h
  obtain ⟨paths', hp', ha'⟩ := h'
  refine ⟨paths ++ paths', List.forall_mem_append.mpr ⟨hp, hp'⟩, ?_⟩
  exact (ha.mono (List.subset_append_left _ _)).trans (ha'.mono (List.subset_append_right _ _))

theorem Worked.grows (h : Worked l t t') : t.Grows t' := by
  obtain ⟨paths, -, ha⟩ := h
  exact ha.grows

theorem Layout.Fits.worked (h : l.Fits t) (hw : Worked l t t') : l.Fits t' := by
  obtain ⟨paths, -, ha⟩ := hw
  exact h.adds ha

theorem isAbsolute_of_mem_inputs (hl : l.Fits t) (hi : i ∈ inputs l t) : isAbsolute i.path = true := by
  rcases List.mem_append.mp hi with hi | hi
  · obtain ⟨path, hp, rfl⟩ := List.mem_map.mp hi
    obtain ⟨name, -, rfl⟩ := exists_of_mem_glob (by decide) hp
    exact isAbsolute_join hl.tilesets.1 name
  · obtain ⟨path, hp, rfl⟩ := List.mem_map.mp hi
    obtain ⟨name, -, rfl⟩ := exists_of_mem_glob (by decide) hp
    exact isAbsolute_join hl.levels.1 name

theorem apart_of_mem_outputs {p : String} (hp : p ∈ i.outputs l t) : Apart Place.IsInput l.root p := by
  obtain ⟨kind, name, -, hk, hn, rfl⟩ := exists_kind_of_mem_outputs hp
  exact hk.apart hn fun _ h => h

theorem isInput_of_mem_inputs (hi : i ∈ inputs l t) (hp : t'.locate i.path = .ok place) : place.IsInput := by
  have hl : ∃ c ∈ ['t', 'l'], i.path.toList.getLast? = some c := by
    rcases getLast?_path hi with ⟨path, rfl, hl⟩ | ⟨path, rfl, hl⟩
    · exact ⟨'t', by simp, hl⟩
    · exact ⟨'l', by simp, hl⟩
  obtain ⟨c, hc, hl⟩ := hl
  have hne : c ≠ '/' ∧ c ≠ '.' := by
    simp only [List.mem_cons, List.not_mem_nil, or_false] at hc
    rcases hc with rfl | rfl
    · decide
    · decide
  obtain ⟨front, name, rfl, hn⟩ := exists_place_eq hp hl hne.1 hne.2
  exact ⟨name, List.getLast?_concat, c, hc, hn⟩

theorem Worked.files (hl : l.Fits t) (h : Worked l t t') (place : Place) :
    t'.fileAt? place = t.fileAt? place ∨ ¬ place.IsInput ∧
      (∃ (i : Input) (t₁ : FileTree), ∃ p ∈ i.outputs l t₁, t'.locate p = .ok place) ∧
      ∃ file, t'.fileAt? place = some file ∧ t.clock ≤ file.modified ∧ file.modified < t'.clock := by
  obtain ⟨paths, hpa, ha⟩ := h
  rcases ha.files place not_false with hs | ⟨⟨p, hp, hpl⟩, hnew⟩
  · exact .inl hs
  · obtain ⟨i, t₁, hi⟩ := hpa p hp
    exact .inr ⟨((apart_of_mem_outputs hi) t' place (hl.adds ha).rootThere hpl).1, ⟨i, t₁, p, hi, hpl⟩, hnew⟩

theorem Worked.fileAt?_eq (hl : l.Fits t) (h : Worked l t t') (hp : place.IsInput) :
    t'.fileAt? place = t.fileAt? place := by
  rcases h.files hl place with hs | ⟨hnot, -⟩
  · exact hs
  · exact absurd hp hnot

theorem Worked.keeps (hl : l.Fits t) (h : Worked l t t') (hi : i ∈ inputs l t) (ht : HasTime t i.path) :
    t.Keeps t' i.path := by
  obtain ⟨place, hp, hth⟩ := ht.exists_place
  refine ⟨place, hp, h.grows.locate hp, h.fileAt?_eq hl (isInput_of_mem_inputs hi hp), fun hn => ?_⟩
  rw [hth hn, h.grows.directories place (hth hn)]

theorem Worked.lists (hl : l.Fits t) (h : Worked l t t') :
    tilesetsOf l t' = tilesetsOf l t ∧ levelsOf l t' = levelsOf l t := by
  obtain ⟨paths, -, ha⟩ := h
  constructor
  · rw [tilesetsOf, ha.glob_eq hl.tilesets.2 (by decide) (fun name hn => by simp [isInputName, hn]), tilesetsOf]
  · rw [levelsOf, ha.glob_eq hl.levels.2 (by decide) (fun name hn => by simp [isInputName, hn]), levelsOf]

theorem Worked.inputs_eq (hl : l.Fits t) (h : Worked l t t') : inputs l t' = inputs l t := by
  obtain ⟨ht, hle⟩ := h.lists hl
  rw [inputs, inputs, ht, hle]

theorem Worked.sameInputs (hl : l.Fits t) (h : Worked l t t') (ht : ∀ i ∈ inputs l t, HasTime t i.path) :
    SameInputs l t t' := by
  obtain ⟨hti, hle⟩ := h.lists hl
  have hk : ∀ i ∈ inputs l t, t.Keeps t' i.path := fun i hi => h.keeps hl hi (ht i hi)
  exact ⟨hti, hle, fun i hi => timeOf_congr (hk i hi), fun i hi => i.outputs_congr l (hk i hi).text⟩

theorem SameInputs.hasTime (h : SameInputs l t t') (ht : ∀ i ∈ inputs l t, HasTime t i.path) :
    ∀ i ∈ inputs l t', HasTime t' i.path := by
  intro i hi
  rw [h.inputs_eq] at hi
  exact (ht i hi).congr (h.times i hi)

theorem hasTime_of_hasSince {others : Place → Prop} {time : Nat} {path : String} (h : t.HasSince others time path)
    (ht : 0 < time) : HasTime t path := by
  obtain ⟨place, file, hp, -, hf, hle⟩ := h
  refine ⟨.ofInt file.modified, ?_, Number.Double.isZero_ofInt (by omega)⟩
  simp only [timeOf, modified, hp, hf]

/-! One turn -/

theorem built_turn (hl : l.Fits s.tree) (hi : i ∈ inputs l s.tree) (hn : i.Named s.tree) :
    Built (fun _ => False) (i.outputs l s.tree) s ((i.command (i.words l s.tree)).outcome s) := by
  rw [← i.commandPausing_pure]
  exact i.built hl.root hl.rootThere (isAbsolute_of_mem_inputs hl hi) hn (fun _ h => h.elim)
    fun _ => Act.builds_pure ()

theorem worked_of_built {r : Except Ending Unit × Session}
    (h : Built (fun _ => False) (i.outputs l s.tree) s r) : Worked l s.tree r.2.tree :=
  ⟨i.outputs l s.tree, fun _ hp => ⟨i, s.tree, hp⟩, h.adds⟩

section Update

variable {input : String} {outputs : List String} {make : Act Int} {code : Int}

theorem outcome_update (h : isStale s.tree p.cache input outputs = .ok true) (hm : make.Ends s code s') :
    ((update p input outputs make).outcome s).2 = s' := by
  by_cases hc : code = 0
  · subst hc
    cases hr : record s'.tree p.cache input outputs with
    | ok cache => rw [ends_update_made h hm hr]
    | error c =>
      have hs : (Act.orCrash (isStale s.tree p.cache input outputs)).Ends s true s := by
        rw [h]
        rfl
      rw [update, Act.outcome_bind_of_ends (Act.ends_tree.mpr ⟨rfl, rfl⟩), Act.outcome_bind_of_ends hs,
        if_neg (by decide), Act.outcome_bind_of_ends hm, if_pos rfl,
        Act.outcome_bind_of_ends (Act.ends_tree.mpr ⟨rfl, rfl⟩), hr]
      rfl
  · rw [ends_update_failed h hm hc]

theorem record_of_ends (h : isStale s.tree p.cache input outputs = .ok true) (hm : make.Ends s 0 s')
    {s'' : Session} (he : (update p input outputs make).Ends s p' s'') :
    ∃ cache, record s'.tree p.cache input outputs = .ok cache ∧ p' = { p with cache } ∧ s'' = s' := by
  simp only [update, Act.ends_bind, Act.ends_tree, Act.ends_orCrash] at he
  obtain ⟨t, s₁, ⟨rfl, rfl⟩, stale, s₂, ⟨hs, rfl⟩, he⟩ := he
  obtain rfl := Except.ok.inj (h.symm.trans hs)
  rw [if_neg (by decide), Act.ends_bind] at he
  obtain ⟨code, s₃, hma, he⟩ := he
  obtain ⟨rfl, rfl⟩ := hm.unique hma
  rw [if_pos rfl] at he
  simp only [Act.ends_bind, Act.ends_tree, Act.ends_orCrash, Act.ends_pure] at he
  obtain ⟨t, s₄, ⟨rfl, rfl⟩, cache, s₅, ⟨hr, rfl⟩, rfl, rfl⟩ := he
  exact ⟨cache, hr, rfl, rfl⟩

theorem outcome_update_of_error {c : Crash} (h : isStale s.tree p.cache input outputs = .error c) :
    ((update p input outputs make).outcome s).2 = s := by
  rw [update, Act.outcome_bind_of_ends (Act.ends_tree.mpr ⟨rfl, rfl⟩), h]
  rfl

end Update

theorem worked_turn (hl : l.Fits s.tree) (hi : i ∈ inputs l s.tree)
    (hn : isStale s.tree p.cache i.path (i.outputs l s.tree) = .ok true → i.Named s.tree) :
    Worked l s.tree ((updateInput l p i).outcome s).2.tree := by
  rw [updateInput, Act.outcome_bind_of_ends (Act.ends_tree.mpr ⟨rfl, rfl⟩)]
  cases h : isStale s.tree p.cache i.path (i.outputs l s.tree) with
  | error c =>
    rw [outcome_update_of_error h]
    exact .refl l _
  | ok stale =>
    cases stale with
    | false =>
      rw [ends_update_fresh h]
      exact .refl l _
    | true =>
      obtain ⟨s', he, ht, -⟩ := Act.exists_ends_start i.tool i.command (i.words l s.tree) s
      rw [outcome_update h he, ht]
      exact worked_of_built (built_turn hl hi (hn h))

inductive Turn (l : Layout) (i : Input) (p : Progress) (s : Session) : Progress → Session → Prop
  | fresh : isStale s.tree p.cache i.path (i.outputs l s.tree) = .ok false → Turn l i p s p s
  | failed {s' : Session} : isStale s.tree p.cache i.path (i.outputs l s.tree) = .ok true →
      s.tree.Adds (fun _ => False) (i.outputs l s.tree) s'.tree → Turn l i p s { p with ok := false } s'
  | made {s₁ s' : Session} {cache : Json} : isStale s.tree p.cache i.path (i.outputs l s.tree) = .ok true →
      (i.command (i.words l s.tree)).Ends s () s₁ → s'.tree = s₁.tree →
      s.tree.Adds (fun _ => False) (i.outputs l s.tree) s'.tree →
      (∀ path ∈ i.outputs l s.tree, HasTime s'.tree path) →
      record s'.tree p.cache i.path (i.outputs l s.tree) = .ok cache → Turn l i p s { p with cache } s'

theorem turn_of_ends (hl : l.Fits s.tree) (hi : i ∈ inputs l s.tree)
    (hn : isStale s.tree p.cache i.path (i.outputs l s.tree) = .ok true → i.Named s.tree)
    (h : (updateInput l p i).Ends s p' s') : Turn l i p s p' s' := by
  obtain ⟨t, s₁, ht, h⟩ := Act.ends_bind.mp h
  obtain ⟨rfl, rfl⟩ := Act.ends_tree.mp ht
  obtain ⟨stale, hs⟩ := exists_isStale_of_ends h
  cases stale with
  | false =>
    obtain ⟨rfl, rfl⟩ := h.unique (ends_update_fresh hs)
    exact .fresh hs
  | true =>
    have hb := built_turn hl hi (hn hs)
    obtain ⟨s₂, he, htr, -⟩ := Act.exists_ends_start i.tool i.command (i.words l s.tree) s
    by_cases hc : Act.exitCode ((i.command (i.words l s.tree)).outcome s).1 = 0
    · rw [hc] at he
      obtain ⟨cache, hr, rfl, rfl⟩ := record_of_ends hs he h
      have hen := hb.code hc
      refine .made hs (Act.ends_outcome hen) htr (htr ▸ hb.adds) (fun path hp => ?_) hr
      rw [htr]
      exact hasTime_of_hasSince (hb.made hen path hp) hl.clock
    · obtain ⟨rfl, rfl⟩ := h.unique (ends_update_failed hs he hc)
      exact .failed hs (htr ▸ hb.adds)

theorem Turn.adds (h : Turn l i p s p' s') : s.tree.Adds (fun _ => False) (i.outputs l s.tree) s'.tree := by
  cases h with
  | fresh _ => exact .refl _ _ _
  | failed _ ha => exact ha
  | made _ _ _ ha _ _ => exact ha

theorem Turn.worked (h : Turn l i p s p' s') : Worked l s.tree s'.tree :=
  ⟨i.outputs l s.tree, fun _ hp => ⟨i, s.tree, hp⟩, h.adds⟩

theorem hasTime_of_isStale {cache : Json} (h : isStale t cache input outputs = .ok true) : HasTime t input := by
  obtain ⟨time, ht, h⟩ := except_bind_eq_ok.mp h
  refine ⟨time, ht, ?_⟩
  cases hz : time.isZero with
  | false => rfl
  | true =>
    rw [hz] at h
    cases h

/-- An input that was made and recorded is fresh, and the cache says the same about others. -/
theorem fresh_of_record {cache cache' : Json} (hs : isStale t cache input outputs = .ok true) (ht : HasTime t' input)
    (ho : ∀ path ∈ outputs, HasTime t' path) (hr : record t' cache input outputs = .ok cache') :
    Fresh t' cache' input outputs ∧ ∀ key, key ≠ input → ∀ d, member cache' key d = member cache key d := by
  obtain ⟨members, rfl⟩ := exists_members_of_isStale (hasTime_of_isStale hs) hs
  obtain ⟨cache₁, hr', hf, hk⟩ := @exists_record _ _ _ members ht ho
  obtain rfl := Except.ok.inj (hr'.symm.trans hr)
  exact ⟨hf, hk⟩

theorem Turn.member_eq (h : Turn l i p s p' s') (hl : l.Fits s.tree) (hi : i ∈ inputs l s.tree) {key : String}
    (hkey : key ≠ i.path) (d : Json) : member p'.cache key d = member p.cache key d := by
  have hw := h.worked
  cases h with
  | fresh _ => rfl
  | failed _ _ => rfl
  | made hs _ _ _ ho hr =>
    have ht := hasTime_of_isStale hs
    exact (fresh_of_record hs (ht.congr (timeOf_congr (hw.keeps hl hi ht))) ho hr).2 key hkey d

theorem Turn.fresh_of_ok (h : Turn l i p s p' s') (ht : HasTime s.tree i.path) (hl : l.Fits s.tree)
    (hi : i ∈ inputs l s.tree) (hok : p'.ok = true) :
    p.ok = true ∧ Fresh s'.tree p'.cache i.path (i.outputs l s'.tree) := by
  have hk := h.worked.keeps hl hi ht
  have ht' := ht.congr (timeOf_congr hk)
  rw [i.outputs_congr l hk.text]
  cases h with
  | fresh hs => exact ⟨hok, fresh_of_isStale ht hs⟩
  | failed _ _ => cases hok
  | made hs _ _ _ ho hr => exact ⟨hok, (fresh_of_record hs ht' ho hr).1⟩

/-- An output that is there stays as it is if it is not one of those that are written. -/
theorem keeps_output (hl : l.Fits t) (ha : t.Adds (fun _ => False) (i.outputs l t) t') {path : String}
    (hp : path ∈ j.outputs l t) (hnot : path ∉ i.outputs l t) (ht : HasTime t path) : t.Keeps t' path := by
  obtain ⟨place, hpl, hth⟩ := ht.exists_place
  refine ⟨place, hpl, ha.grows.locate hpl, ?_, fun hn => ?_⟩
  · rcases ha.files place not_false with hs | ⟨⟨q, hq, hp'⟩, -⟩
    · exact hs
    · obtain ⟨here, hh, -⟩ := isDirectory_iff.mp (hl.adds ha).rootThere
      have heq := eq_of_place_eq hp hq hh (ha.grows.locate hpl) hp'
      exact absurd (heq ▸ hq) hnot
  · rw [hth hn, ha.grows.directories place (hth hn)]

def Separate (l : Layout) (t : FileTree) : Prop :=
  ∀ i ∈ inputs l t, ∀ j ∈ inputs l t, i ≠ j → ∀ path ∈ i.outputs l t, path ∉ j.outputs l t

instance (l : Layout) (t : FileTree) : Decidable (Separate l t) :=
  inferInstanceAs (Decidable (∀ i ∈ inputs l t, ∀ j ∈ inputs l t, i ≠ j → ∀ path ∈ i.outputs l t, path ∉ j.outputs l t))

theorem Separate.congr (h : Separate l t) (hs : SameInputs l t t') : Separate l t' := by
  intro i hi j hj hne path hp
  rw [hs.inputs_eq] at hi hj
  rw [hs.outputs i hi] at hp
  rw [hs.outputs j hj]
  exact h i hi j hj hne path hp

theorem Fresh.hasTime_input {cache : Json} (h : Fresh t cache input outputs) : HasTime t input := by
  obtain ⟨entry, v, cached, -, -, -, ⟨time, ht, hz, -⟩, -⟩ := h
  exact ⟨time, ht, hz⟩

theorem Turn.fresh_other (h : Turn l i p s p' s') (hl : l.Fits s.tree) (hs : Separate l s.tree)
    (hi : i ∈ inputs l s.tree) (hj : j ∈ inputs l s.tree) (hne : j ≠ i)
    (hf : Fresh s.tree p.cache j.path (j.outputs l s.tree)) :
    Fresh s'.tree p'.cache j.path (j.outputs l s'.tree) := by
  have hk := h.worked.keeps hl hj hf.hasTime_input
  rw [j.outputs_congr l hk.text]
  refine hf.congr (timeOf_congr hk) (fun path hp => ?_)
    (h.member_eq hl hi (fun heq => hne (eq_of_path_eq hj hi heq)) _)
  exact timeOf_congr (keeps_output hl h.adds hp (hs j hj i hi hne path hp) (hf.hasTime path hp))

/-! Many turns -/

section Turns

variable {turns done : List Input}

theorem worked_turns (hl : l.Fits s.tree) (ht : ∀ i ∈ turns, i ∈ inputs l s.tree)
    (hn : ∀ a ∈ startsIn l p s turns, a.input.Named a.before.tree) :
    Worked l s.tree ((turns.foldlM (updateInput l) p).outcome s).2.tree := by
  induction turns generalizing p s with
  | nil => exact .refl l _
  | cons i turns ih =>
    rw [List.forall_mem_cons] at ht
    have hw := worked_turn hl ht.1 fun h => hn ⟨i, s⟩ (mem_startsIn_of_stale h)
    rw [List.foldlM_cons]
    rcases h : (updateInput l p i).outcome s with ⟨e | p₁, s₁⟩
    · rw [h] at hw
      rw [Act.outcome_bind_of_error h]
      exact hw
    · rw [h] at hw
      rw [Act.outcome_bind_of_ends h]
      refine hw.trans (ih (hl.worked hw) ?_ fun a ha => hn a (mem_startsIn_of_ends h ha))
      rw [hw.inputs_eq hl]
      exact ht.2

/-- After turns that went well, the inputs are fresh that have had one, now or before. -/
theorem fresh_of_turns (hl : l.Fits s.tree) (hs : Separate l s.tree)
    (ht : ∀ i ∈ inputs l s.tree, HasTime s.tree i.path) (htu : ∀ i ∈ done ++ turns, i ∈ inputs l s.tree)
    (hn : (done ++ turns).Nodup) (hna : ∀ a ∈ startsIn l p s turns, a.input.Named a.before.tree)
    (hdo : p.ok = true → ∀ j ∈ done, Fresh s.tree p.cache j.path (j.outputs l s.tree))
    (h : (turns.foldlM (updateInput l) p).Ends s p' s') (hok : p'.ok = true) :
    p.ok = true ∧ ∀ j ∈ done ++ turns, Fresh s'.tree p'.cache j.path (j.outputs l s'.tree) := by
  induction turns generalizing p s done with
  | nil =>
    obtain ⟨rfl, rfl⟩ := Act.ends_pure.mp h
    rw [List.append_nil]
    exact ⟨hok, hdo hok⟩
  | cons i turns ih =>
    rw [List.foldlM_cons] at h
    obtain ⟨p₁, s₁, he, hr⟩ := Act.ends_bind.mp h
    have hi : i ∈ inputs l s.tree := htu i (by simp)
    have htr := turn_of_ends hl hi (fun h => hna ⟨i, s⟩ (mem_startsIn_of_stale h)) he
    have hsa := htr.worked.sameInputs hl ht
    have hap : done ++ i :: turns = done ++ [i] ++ turns := by simp
    rw [hap] at htu hn ⊢
    have hnew : i ∉ done := by
      rw [List.append_assoc, List.nodup_append] at hn
      intro hmem
      exact hn.2.2 i hmem i (by simp) rfl
    have hd₁ : p₁.ok = true → ∀ j ∈ done ++ [i], Fresh s₁.tree p₁.cache j.path (j.outputs l s₁.tree) := by
      intro hok₁
      obtain ⟨hok, hf⟩ := htr.fresh_of_ok (ht i hi) hl hi hok₁
      rw [List.forall_mem_append, List.forall_mem_singleton]
      refine ⟨fun j hj => ?_, hf⟩
      have hj' : j ∈ inputs l s.tree := htu j (by simp [hj])
      refine htr.fresh_other hl hs hi hj' ?_ (hdo hok j hj)
      rintro rfl
      exact hnew hj
    obtain ⟨hok₁, hall⟩ := ih (hl.worked htr.worked) (hs.congr hsa) (hsa.hasTime ht)
      (fun j hj => hsa.inputs_eq ▸ htu j hj) hn (fun a ha => hna a (mem_startsIn_of_ends he ha))
      hd₁ hr
    exact ⟨(htr.fresh_of_ok (ht i hi) hl hi hok₁).1, hall⟩

end Turns

end Assets

end EscapeRoom
