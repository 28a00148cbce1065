import EscapeRoom.Proofs.Game.Conditions
import EscapeRoom.Proofs.Game.Inventory

/-!
# What actions mean

A script of actions changes the game line by line, up to a line `END`; a line names the flag, variable,
item, message or place that it is about. Running the code of a script ends in the state that the lines of
the script lead to, and fetches no byte that is not part of this code.
-/

namespace EscapeRoom

open Report

open Level

/-- A text as it is shown: a question mark for what is not ASCII, and nothing from a zero on. -/
def Level.shownText (text : String) : Bytes :=
  (text.toList.map fun ch => if ch.toNat < 128 then UInt8.ofNat ch.toNat else 63).takeWhile (· != 0)

namespace Action

/-- What a step does to the game, by the names that it gives. -/
inductive Does (level : Level) (g : Game) : Action → Game → Prop
  | showMessage {message text : String} : level.messages.get? message = some text →
      Does level g (.showMessage message) (g.showText (some (shownText text)))
  | setFlag {flag : String} {i : Nat} {p : Puzzle} : level.flags[i]? = some flag →
      g.puzzle.FlagChanged i true p → Does level g (.setFlag flag) { g with puzzle := p }
  | clearFlag {flag : String} {i : Nat} {p : Puzzle} : level.flags[i]? = some flag →
      g.puzzle.FlagChanged i false p → Does level g (.clearFlag flag) { g with puzzle := p }
  | give {item : String} {i : Nat} {inv : Inventory} : level.items[i]? = some item →
      Inventory.Given (UInt8.ofNat i) g.inventory.items inv.items →
      Does level g (.give item) { g with inventory := inv }
  | take {item : String} {i : Nat} {inv : Inventory} : level.items[i]? = some item →
      Inventory.Taken (UInt8.ofNat i) g.inventory.items inv.items →
      Does level g (.take item) { g with inventory := inv }
  | setVar {var value : String} {i : Nat} {n : Int} {v : UInt8} {p : Puzzle} :
      level.vars[i]? = some var → Number.parseLiteral .marked value = .ok n →
      (v.toNat : Int) = n % 256 → g.puzzle.VarChanged i v p →
      Does level g (.setVar var value) { g with puzzle := p }
  | playSound (sound : String) : Does level g (.playSound sound) g
  | transition {room spawn : String} {i j : Nat} : level.IsPlace room spawn i j →
      Does level g (.transition room spawn) (g.loadRoom (UInt8.ofNat i) (UInt8.ofNat j))

theorem Does.unique {level : Level} (hd : level.Declared) (hk : level.Keyed) {g g' g'' : Game}
    {t : Action} (h : t.Does level g g') (h' : t.Does level g g'') : g' = g'' := by
  cases h with
  | showMessage ht =>
    cases h' with
    | showMessage ht' => rw [Option.some.inj (ht.symm.trans ht')]
  | setFlag hi hp =>
    cases h' with
    | setFlag hi' hp' =>
      rw [index_unique hd.flags hi hi'] at hp
      rw [hp.unique hp']
  | clearFlag hi hp =>
    cases h' with
    | clearFlag hi' hp' =>
      rw [index_unique hd.flags hi hi'] at hp
      rw [hp.unique hp']
  | give hi hinv =>
    cases h' with
    | give hi' hin' =>
      rw [index_unique hd.items hi hi', Inventory.given_iff] at hinv
      rw [Inventory.given_iff] at hin'
      rw [hinv, hin']
  | take hi hinv =>
    cases h' with
    | take hi' hin' =>
      rw [index_unique hd.items hi hi', Inventory.taken_iff] at hinv
      rw [Inventory.taken_iff] at hin'
      rw [hinv, hin']
  | setVar hi hn hv hp =>
    cases h' with
    | setVar hi' hn' hv' hp' =>
      have he := Except.ok.inj (hn.symm.trans hn')
      have hb := UInt8.toNat_inj.mp (Int.ofNat_inj.mp (hv.trans (he ▸ hv'.symm)))
      rw [index_unique hd.vars hi hi', hb] at hp
      rw [hp.unique hp']
  | playSound =>
    cases h' with
    | playSound => rfl
  | transition hpl =>
    cases h' with
    | transition hpl' =>
      obtain ⟨rfl, rfl⟩ := hpl.unique hk hpl'
      rfl

end Action

theorem Game.Plays.act {c : Compiled} {g g' : Game} {op a b : UInt8} (hp : g.Plays c)
    (h : g.act op a b = some g') : g'.Plays c := by
  unfold Game.act at h
  split at h
  · obtain rfl := Option.some.inj h
    unfold Game.showText
    split <;> exact ⟨hp.level, hp.flagCount, hp.varCount⟩
  · obtain rfl := Option.some.inj h
    have hc := g.puzzle.counts_setFlag a
    exact ⟨hp.level, hc.1.trans hp.flagCount, hc.2.trans hp.varCount⟩
  · obtain rfl := Option.some.inj h
    have hc := g.puzzle.counts_clearFlag a
    exact ⟨hp.level, hc.1.trans hp.flagCount, hc.2.trans hp.varCount⟩
  · obtain rfl := Option.some.inj h
    exact ⟨hp.level, hp.flagCount, hp.varCount⟩
  · obtain rfl := Option.some.inj h
    exact ⟨hp.level, hp.flagCount, hp.varCount⟩
  · obtain rfl := Option.some.inj h
    have hc := g.puzzle.counts_setVar a b
    exact ⟨hp.level, hc.1.trans hp.flagCount, hc.2.trans hp.varCount⟩
  · obtain rfl := Option.some.inj h
    exact hp
  · obtain rfl := Option.some.inj h
    exact ⟨hp.level, hp.flagCount, hp.varCount⟩
  · simp at h

/-- What script lines do to the game one after the other. -/
inductive Script.Runs (level : Level) : List (Nat × String) → Game → Game → Prop
  | nil {g : Game} : Runs level [] g g
  | blank {line : Nat × String} {rest : List (Nat × String)} {g g' : Game} :
      Text.words line.2 = [] → Runs level rest g g' → Runs level (line :: rest) g g'
  | step {line : Nat × String} {rest : List (Nat × String)} {t : Action} {g g₁ g' : Game} :
      Action.Said (Text.words line.2) t → t.Does level g g₁ → Runs level rest g₁ g' →
      Runs level (line :: rest) g g'

theorem Script.Runs.unique {level : Level} (hd : level.Declared) (hk : level.Keyed)
    {lines : List (Nat × String)} {g g' g'' : Game} (h : Script.Runs level lines g g')
    (h' : Script.Runs level lines g g'') : g' = g'' := by
  induction h with
  | nil =>
    cases h'
    rfl
  | blank hb _ ih =>
    cases h' with
    | blank _ hr => exact ih hr
    | step hsa _ _ =>
      rw [hb] at hsa
      cases hsa
  | step hsa hdo _ ih =>
    cases h' with
    | blank hb _ =>
      rw [hb] at hsa
      cases hsa
    | step hs' hd' hr =>
      have he := (Action.readLine_of_said hsa).symm.trans (Action.readLine_of_said hs')
      rw [← ScriptLine.step.inj he] at hd'
      rw [← hdo.unique hd hk hd'] at hr
      exact ih hr

/-- All that scripts can name has a number that fits into a byte, and every variable is kept. -/
structure Level.Playable (level : Level) : Prop where
  flags : level.flags.length ≤ 255
  vars : level.vars.length ≤ 64
  items : level.items.length ≤ 255
  messages : level.messages.length ≤ 255
  rooms : level.rooms.length ≤ 255
  spawns : ∀ room ∈ level.rooms.values, room.spawns.length ≤ 255

section

variable {level : Level} {c : Compiled} (hl : level.Built) (hf : level.Playable) (hs : Stands level c)
  (hlen : c.blob.length ≤ 65535)
include hl hf hs hlen

theorem Action.act_compile {g : Game} (hp : g.Plays c) {line : Nat} {raw : String} {t : Action}
    {i : Instruction} (h : (t.compile level.ids line raw).Yields i) :
    ∃ g', g.act i.op i.a i.b = some g' ∧ t.Does level g g' := by
  have hd := declared_of_built hl
  have hk := keyed_of_built hl
  have hfl := hf.flags
  have hi := hf.items
  have hv := hf.vars
  cases t with
  | showMessage message =>
    simp only [compile, yields_bind, yields_pure, ids,
      resolveId_number_yields hk.messages] at h
    obtain ⟨n, hn, rfl⟩ := h
    rw [Table.keys, List.getElem?_map, Option.map_eq_some_iff] at hn
    obtain ⟨⟨name, text⟩, he, rfl⟩ := hn
    have hlt := (List.getElem?_eq_some_iff.mp he).1
    have hme := hf.messages
    have hsh : g.level.message (byteOf n) = some (shownText text) := by
      rw [hp.level, byteOf_natCast (by omega), hs.message hlen hme (Table.getElem?_values he), messageBytes,
        takeWhile_append_zero, shownText]
    refine ⟨_, rfl, ?_⟩
    rw [hsh]
    exact .showMessage (Table.get?_of_mem hk.messages (List.mem_of_getElem? he))
  | setFlag flag =>
    simp only [compile, yields_bind, yields_pure, ids, resolveId_number_yields hd.flags] at h
    obtain ⟨n, hn, rfl⟩ := h
    have hlt := index_lt hn
    have hc := Puzzle.flagChanged_setFlag (hp.lt_flagCount hs hfl hlt)
    rw [toNat_uint8_ofNat (by omega), ← byteOf_natCast (by omega)] at hc
    exact ⟨_, rfl, .setFlag hn hc⟩
  | clearFlag flag =>
    simp only [compile, yields_bind, yields_pure, ids, resolveId_number_yields hd.flags] at h
    obtain ⟨n, hn, rfl⟩ := h
    have hlt := index_lt hn
    have hc := Puzzle.flagChanged_clearFlag (hp.lt_flagCount hs hfl hlt)
    rw [toNat_uint8_ofNat (by omega), ← byteOf_natCast (by omega)] at hc
    exact ⟨_, rfl, .clearFlag hn hc⟩
  | give item =>
    simp only [compile, yields_bind, yields_pure, ids, resolveId_number_yields hd.items] at h
    obtain ⟨n, hn, rfl⟩ := h
    have hlt := index_lt hn
    refine ⟨_, rfl, .give hn ((Inventory.given_iff _ _ _).mpr ?_)⟩
    rw [byteOf_natCast (by omega)]
  | take item =>
    simp only [compile, yields_bind, yields_pure, ids, resolveId_number_yields hd.items] at h
    obtain ⟨n, hn, rfl⟩ := h
    have hlt := index_lt hn
    refine ⟨_, rfl, .take hn ((Inventory.taken_iff _ _ _).mpr ?_)⟩
    rw [byteOf_natCast (by omega)]
  | setVar var value =>
    simp only [compile, yields_bind, yields_pure, ids, resolveId_number_yields hd.vars] at h
    obtain ⟨n, hn, b, hb, rfl⟩ := h
    obtain ⟨m, hm, rfl⟩ := byteValue_yields hb
    have hlt := index_lt hn
    have hin : (byteOf n).toNat = n := toNat_byteOf_natCast (by omega)
    have hc := Puzzle.varChanged_setVar (p := g.puzzle) (i := byteOf n) (v := byteOf m)
      (by rw [hin, hp.varCount_eq hs hv]; exact hlt)
    rw [hin] at hc
    exact ⟨_, rfl, .setVar hn hm (coe_toNat_byteOf m) hc⟩
  | playSound sound =>
    simp only [compile, yields_bind, yields_pure] at h
    obtain ⟨b, _, rfl⟩ := h
    exact ⟨g, rfl, .playSound sound⟩
  | transition room spawn =>
    simp only [compile, yields_bind, resolveId_yields] at h
    obtain ⟨n, hn, h⟩ := h
    split at h
    · rename_i m hm
      rw [yields_pure] at h
      subst h
      have hpl := isPlace_of_ids hk hn hm
      have hro := hpl.room_lt
      obtain ⟨r, hr, hsp⟩ := hpl.spawn_lt
      have hrm := hf.rooms
      have hsw := hf.spawns r hr
      refine ⟨_, rfl, ?_⟩
      rw [byteOf_natCast (by omega), byteOf_natCast (by omega)]
      exact .transition hpl
    · simp at h

end

/-- The bytes of a level image within a range of addresses. -/
def LevelImage.within (l : LevelImage) (start length : Nat) (a : UInt16) : Option UInt8 :=
  if start ≤ a.toNat ∧ a.toNat < start + length then some (l.byte a) else none

theorem LevelImage.within_eq_byte (l : LevelImage) (start length : Nat) (a : UInt16)
    (h : start ≤ a.toNat) (h' : a.toNat < start + length) : l.within start length a = some (l.byte a) :=
  if_pos ⟨h, h'⟩

theorem LevelImage.byte_of_within (l : LevelImage) (start length : Nat) (a : UInt16) (b : UInt8)
    (h : l.within start length a = some b) : (fun a => some (l.byte a)) a = some b := by
  unfold within at h
  split at h
  · exact h
  · simp at h

namespace Game

/-- Takes all steps from a place on, fetching the bytes of instructions from where `fetch` has any. -/
def actionsOver (fetch : UInt16 → Option UInt8) : Nat → UInt16 → Game → Option Game
  | 0, _, _ => none
  | fuel + 1, base, g => do
    match g.act (← fetch base) (← fetch (base + 1)) (← fetch (base + 2)) with
    | some next => actionsOver fetch fuel (base + 3) next
    | none => some g

theorem actionsOver_byte {c : Compiled} (fuel : Nat) (base : UInt16) {g : Game} (hp : g.Plays c) :
    actionsOver (fun a => some (c.image.byte a)) fuel base g = actionsFrom fuel base g := by
  induction fuel generalizing base g with
  | zero => rfl
  | succ fuel ih =>
    simp only [actionsOver, actionsFrom, hp.level, Option.bind_eq_bind, Option.bind_some]
    cases hn : g.act (c.image.byte base) (c.image.byte (base + 1)) (c.image.byte (base + 2)) with
    | none => rfl
    | some next => exact ih (base + 3) (hp.act hn)

/-- Where a run succeeds with few bytes to fetch, more bytes make no difference. -/
theorem actionsOver_mono {fetch fetch' : UInt16 → Option UInt8}
    (hm : ∀ a b, fetch a = some b → fetch' a = some b) {fuel : Nat} {base : UInt16} {g g' : Game}
    (h : actionsOver fetch fuel base g = some g') : actionsOver fetch' fuel base g = some g' := by
  induction fuel generalizing base g with
  | zero => simp [actionsOver] at h
  | succ fuel ih =>
    simp only [actionsOver, Option.bind_eq_bind, Option.bind_eq_some_iff] at h ⊢
    obtain ⟨op, hop, a, ha, b, hb, h⟩ := h
    refine ⟨op, hm _ _ hop, a, hm _ _ ha, b, hm _ _ hb, ?_⟩
    split at h
    · exact ih h
    · exact h

end Game

theorem fetched_of_holdsAt {c : Compiled} {i : Instruction} {rest : Bytes} {base : UInt16} {o : Nat}
    {fetch : UInt16 → Option UInt8} (hlen : c.blob.length ≤ 65535)
    (h : c.blob.HoldsAt o (i.bytes ++ rest)) (hba : base.toNat = o)
    (hfe : ∀ a : UInt16, o ≤ a.toNat → a.toNat < o + (i.bytes ++ rest).length →
      fetch a = some (c.image.byte a)) :
    fetch base = some i.op ∧ fetch (base + 1) = some i.a ∧ fetch (base + 2) = some i.b := by
  obtain ⟨hop, ha, hb⟩ := fetch_of_holdsAt hlen h hba
  have ht : i.bytes.length = 3 := rfl
  have h₁ : (base + 1).toNat = o + 1 := toNat_address hlen h hba 1 (by decide)
  have h₂ : (base + 2).toNat = o + 2 := toNat_address hlen h hba 2 (by decide)
  rw [List.length_append, ht] at hfe
  rw [hfe base (by omega) (by omega), hfe (base + 1) (by omega) (by omega),
    hfe (base + 2) (by omega) (by omega), hop, ha, hb]
  exact ⟨rfl, rfl, rfl⟩

section

variable {level : Level} {c : Compiled} (hl : level.Built) (hf : level.Playable) (hs : Stands level c)
  (hlen : c.blob.length ≤ 65535)
include hl hf hs hlen

/-- The code of a script, wherever it stands in the blob, does what the lines of the script do, and needs
no bytes but its own. -/
theorem Game.actionsOver_of_code {live : List (Nat × String)} {code : Bytes}
    (hc : Script.Compiles Action.Said
      (fun t i => ∃ line raw, (t.compile level.ids line raw).Yields i) live code)
    {fetch : UInt16 → Option UInt8} {fuel o : Nat} {base : UInt16} {g : Game} (hp : g.Plays c)
    (hat : c.blob.HoldsAt o code) (hb : base.toNat = o) (hfu : code.length ≤ 3 * fuel)
    (hfe : ∀ a : UInt16, o ≤ a.toNat → a.toNat < o + code.length →
      fetch a = some (c.image.byte a)) :
    ∃ g', actionsOver fetch fuel base g = some g' ∧ Script.Runs level live g g' := by
  induction hc generalizing fuel o base g with
  | nil =>
    have ht : Instruction.stop.bytes.length = 3 := rfl
    obtain ⟨fuel, rfl⟩ : ∃ k, fuel = k + 1 := ⟨fuel - 1, by omega⟩
    have hat : c.blob.HoldsAt o (Instruction.stop.bytes ++ []) := hat
    obtain ⟨h₀, h₁, h₂⟩ := fetched_of_holdsAt hlen hat hb hfe
    exact ⟨g, by simp [actionsOver, h₀, h₁, h₂, Instruction.stop, act], .nil⟩
  | blank hbl _ ih =>
    obtain ⟨g', hg', hr⟩ := ih hp hat hb hfu hfe
    exact ⟨g', hg', .blank hbl hr⟩
  | @step _ _ _ t i more hsa hi _ ih =>
    obtain ⟨line, raw, hi⟩ := hi
    have ht : i.bytes.length = 3 := rfl
    rw [List.length_append, ht] at hfu
    obtain ⟨fuel, rfl⟩ : ∃ k, fuel = k + 1 := ⟨fuel - 1, by omega⟩
    obtain ⟨g₁, hact, hdo⟩ := t.act_compile hl hf hs hlen hp hi
    obtain ⟨h₀, h₁, h₂⟩ := fetched_of_holdsAt hlen hat hb hfe
    obtain ⟨hre, hn⟩ := next_of_holdsAt hlen hat hb
    have hf' : more.length ≤ 3 * fuel := by omega
    have hfe' : ∀ a : UInt16, o + 3 ≤ a.toNat → a.toNat < o + 3 + more.length →
        fetch a = some (c.image.byte a) := by
      intro a ha ha'
      refine hfe a (by omega) ?_
      rw [List.length_append, ht]
      omega
    obtain ⟨g', hg', hr⟩ := ih (hp.act hact) hre hn hf' hfe'
    refine ⟨g', ?_, .step hsa hdo hr⟩
    simp only [actionsOver, h₀, h₁, h₂, Option.bind_eq_bind, Option.bind_some, hact]
    exact hg'

end

/-- Running a script of actions ends, in the one state that the lines of the script lead to. A run that is
not empty goes the same way if there is nothing to fetch but the code of the script. -/
theorem Game.runActions_iff_runs {s : Sources} {level : Level} {c : Compiled} {g : Game}
    (hload : (load s).Yields (some level)) (hcompile : level.compile.Yields c) (hf : level.Playable)
    (hlen : c.blob.length ≤ 65535) (hp : g.Plays c) {name : String} {offset : Nat}
    (ho : c.layout.acts.offsets.get? name = some offset) :
    ∃ lines code g', level.ActionLines name lines ∧
      (Script.actionCode level.ids lines).Yields code ∧
      c.blob.HoldsAt (c.layout.actStream + offset) code ∧
      g.runActions (UInt16.ofNat offset) = some g' ∧
      (∀ g'', Script.Runs level (Script.liveLines lines) g g'' ↔ g'' = g') ∧
      (offset ≠ 0 → actionsOver (c.image.within (c.layout.actStream + offset) code.length) codePlaces
        (g.level.actStream + UInt16.ofNat offset) g = some g') := by
  have hl := built_of_load hload
  have hd := declared_of_built hl
  have hk := keyed_of_built hl
  have hs := stands_of_compile hcompile
  obtain ⟨lines, code, hlines, hcode, hat, hzero⟩ := actionLines_holdsAt hk.acts hs.acts ho
  have hblob := hs.actStream.trans hat
  have hend := hblob.length_le
  have hruns : ∀ {g'}, Script.Runs level (Script.liveLines lines) g g' → ∀ g'',
      Script.Runs level (Script.liveLines lines) g g'' ↔ g'' = g' := fun {g'} h g'' =>
    ⟨fun h' => h'.unique hd hk h, fun he => he ▸ h⟩
  by_cases h0 : offset = 0
  · subst h0
    have hnil : Script.Runs level (Script.liveLines lines) g g := by
      rw [hzero rfl]
      exact .nil
    exact ⟨lines, code, g, hlines, hcode, hblob, if_pos rfl, hruns hnil, fun hne => absurd rfl hne⟩
  · have hoffset : (UInt16.ofNat offset).toNat = offset := toNat_uint16_ofNat (by omega)
    have hne : UInt16.ofNat offset ≠ 0 := fun he => by
      rw [he] at hoffset
      exact h0 hoffset.symm
    have hbase : (g.level.actStream + UInt16.ofNat offset).toNat = c.layout.actStream + offset := by
      have hstream := hs.toNat_actStream hlen
      rw [hp.level, toNat_add_of_lt (by omega), hstream, hoffset]
    have hfuel : code.length ≤ 3 * codePlaces := by
      simp only [codePlaces]
      omega
    obtain ⟨g', hg', hrun⟩ := actionsOver_of_code hl hf hs hlen
      (Script.compiles_of_yields Action.says_readLine hcode) hp hblob hbase hfuel
      (c.image.within_eq_byte (c.layout.actStream + offset) code.length)
    have hall := actionsOver_mono (c.image.byte_of_within (c.layout.actStream + offset) code.length) hg'
    rw [actionsOver_byte codePlaces _ hp] at hall
    exact ⟨lines, code, g', hlines, hcode, hblob, (if_neg hne).trans hall, hruns hrun, fun _ => hg'⟩

theorem signs_run : ∃ c g', signsLevel.compile.Yields c ∧ c.blob.length ≤ 65535 ∧ c.newGame.Plays c ∧
    c.layout.acts.offsets.get? "A" = some 3 ∧ c.newGame.runActions 3 = some g' ∧ g'.text = some [63] := by
  have hch : signsLevel.compile.endsWith (fun c => decide (c.blob.length ≤ 65535 ∧
      c.layout.acts.offsets.get? "A" = some 3 ∧
      (c.newGame.runActions 3).map (·.text) = some (some [63]))) = true := by
    decide +kernel
  obtain ⟨c, hc, hb⟩ := exists_yields_of_endsWith hch
  obtain ⟨hlen, ho, ht⟩ := of_decide_eq_true hb
  obtain ⟨g', hg', hsh⟩ := Option.map_eq_some_iff.mp ht
  exact ⟨c, g', hc, hlen, Game.plays_initPuzzle (stands_of_compile hc) rfl, ho, hg', hsh⟩

theorem Game.runActions_iff_runs_signs : ∃ c, signsLevel.compile.Yields c ∧
    ∃ lines code g', signsLevel.ActionLines "A" lines ∧
      (Script.actionCode signsLevel.ids lines).Yields code ∧
      c.blob.HoldsAt (c.layout.actStream + 3) code ∧
      c.newGame.runActions (UInt16.ofNat 3) = some g' ∧
      (∀ g'', Script.Runs signsLevel (Script.liveLines lines) c.newGame g'' ↔ g'' = g') ∧
      (3 ≠ 0 → actionsOver (c.image.within (c.layout.actStream + 3) code.length) codePlaces
        (c.newGame.level.actStream + UInt16.ofNat 3) c.newGame = some g') := by
  obtain ⟨c, _, hc, hlen, hplays, hoffset, _⟩ := signs_run
  have hplayable : signsLevel.Playable :=
    ⟨by decide, by decide, by decide, by decide, by decide, by decide⟩
  exact ⟨c, hc, runActions_iff_runs load_signs hc hplayable hlen hplays hoffset⟩

/-- A letter that is not ASCII is not shown: the message `M` is another text than what its step shows. -/
theorem Game.text_runActions_signs : ∃ c g', (load signs).Yields (some signsLevel) ∧
    signsLevel.compile.Yields c ∧ c.blob.length ≤ 65535 ∧ c.newGame.Plays c ∧
    c.layout.acts.offsets.get? "A" = some 3 ∧ c.newGame.runActions 3 = some g' ∧
    signsLevel.messages.get? "M" = some "é" ∧
    g'.text.map (List.map fun b => Char.ofNat b.toNat) = some ['?'] ∧ ['?'] ≠ "é".toList := by
  obtain ⟨c, g', hc, hlen, hplays, hoffset, hg', hshown⟩ := signs_run
  refine ⟨c, g', load_signs, hc, hlen, hplays, hoffset, hg', by decide +kernel, ?_, by decide +kernel⟩
  rw [hshown]
  decide

end EscapeRoom
