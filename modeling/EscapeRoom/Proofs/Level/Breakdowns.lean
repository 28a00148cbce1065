import EscapeRoom.Proofs.Level.Built
import EscapeRoom.Proofs.Level.Dependence
import EscapeRoom.Proofs.Tileset.Breakdowns

/-!
# Where reading a level breaks off

Reading a level goes on after every issue but one, a map character without its tile, and it breaks off with the tileset
that a header names. Together with what makes reading a tileset break off, this says of every file whether it is read to
its end.
-/

namespace EscapeRoom.Level

open Report

variable {s : Sources} {p : Progress} {line : Line} {level : Level} {b : Breakdown} {head : String}
  {parts : List String} {room : Room}

/-- What is wrong with the file of a tileset, so that the level cannot be read any further. -/
inductive TilesetFault (s : Sources) (path : String) : Breakdown → Prop
  | file {e : FileError} : s.text path = .error (.file e) → e ≠ .missing → TilesetFault s path (.tilesetFile e)
  | content {text : String} {b : Tileset.Breakdown} : s.text path = .ok text →
      Tileset.Faulty ⟨path, s.isFile⟩ text b → b ≠ .idTooLong → TilesetFault s path (.tileset b)

@[simp] theorem not_breaksOff_reportAt {cause : Cause} {column : Nat} : ¬(reportAt line cause column).BreaksOff b :=
  not_breaksOff_report _ _

@[simp] theorem not_breaksOff_reportToken {cause : Cause} {token : String} : ¬(reportToken line cause token).BreaksOff b :=
  not_breaksOff_reportAt

theorem readTileset_breaksOff {path : String} : (readTileset s path).BreaksOff b ↔ TilesetFault s path b := by
  unfold readTileset
  constructor
  · intro h
    split at h
    · simp at h
    · simp at h
    · rename_i e hm ht
      rw [breaksOff_breakOff] at h
      exact h ▸ .file ht hm
    · rename_i text ht
      dsimp only at h
      rw [breaksOff_bind] at h
      rcases h with h | ⟨u, -, h⟩
      · exact absurd h (not_breaksOff_forM (fun _ _ => not_breaksOff_report _ _) _ _)
      · split at h
        · simp at h
        · simp at h
        · simp at h
        · rename_i b' hne hrun
          rw [breaksOff_breakOff] at h
          exact h ▸ .content ht (Tileset.read_breaksOff.mp hrun) hne
  · intro h
    cases h with
    | file ht hne =>
      rw [ht]
      rename_i e
      cases e with
      | missing => exact absurd rfl hne
      | _ => exact breaksOff_breakOff.mpr rfl
    | content ht hf hne =>
      rw [ht]
      dsimp only
      rename_i text b
      have hrun : ((Tileset.read ⟨path, s.isFile⟩ text).run .collecting).1 = .error (.broken b) :=
        Tileset.read_breaksOff.mpr hf
      refine (breaksOff_bind_right (fun _ =>
        not_breaksOff_forM (fun _ _ => not_breaksOff_report _ _) _ _) fun _ => Iff.rfl).mpr ?_
      rw [hrun]
      cases b with
      | idTooLong => exact absurd rfl hne
      | _ => exact breaksOff_breakOff.mpr rfl

theorem linkTileset_breaksOff {tileset : String} : (linkTileset s line tileset p).BreaksOff b ↔
    s.isFile (tilesetPath s.path tileset) = true ∧ TilesetFault s (tilesetPath s.path tileset) b := by
  unfold linkTileset
  rw [← tilesetPath]
  dsimp only
  split
  · rename_i hf
    rw [breaksOff_bind_left, readTileset_breaksOff]
    · simp [hf]
    · intro linked
      cases linked <;> simp
  · rename_i hf
    simp [hf]

/-- The fields of a header are there as far as its tileset, but that tileset cannot be read. -/
inductive LinkFault (s : Sources) (fields : Fields) (b : Breakdown) : Prop
  | intro {width height start tileset : String} {place : String × String} : fields.get? "w" = some width →
      fields.get? "h" = some height → fields.get? "start" = some start → splitPair ':' start = .ok place →
      fields.get? "tset" = some tileset → s.isFile (tilesetPath s.path tileset) = true →
      TilesetFault s (tilesetPath s.path tileset) b → LinkFault s fields b

theorem readHeader_breaksOff : (readHeader s line p).BreaksOff b ↔ LinkFault s (Fields.scan line.text) b := by
  unfold readHeader
  generalize Fields.scan line.text = fields
  dsimp only
  constructor
  · intro h
    split at h
    · rename_i width height start hw hh hs
      split at h
      · simp at h
      · rename_i place hp
        split at h
        · rw [pure_bind] at h
          dsimp only at h
          split at h <;> simp at h
        · rename_i tileset ht
          rw [breaksOff_bind] at h
          rcases h with h | ⟨linked, -, h⟩
          · obtain ⟨hf, hfa⟩ := linkTileset_breaksOff.mp h
            exact .intro hw hh hs hp ht hf hfa
          · cases linked with
            | error fault => simp at h
            | ok p =>
              dsimp only at h
              split at h <;> simp at h
    · simp at h
  · rintro ⟨hw, hh, hs, hp, ht, hf, hfa⟩
    rw [hw, hh, hs]
    dsimp only
    rw [hp]
    dsimp only
    rw [ht]
    exact (linkTileset_breaksOff.mpr ⟨hf, hfa⟩).bind _

theorem readTile_breaksOff : (readTile line p level parts).BreaksOff b ↔
    ∃ key, parts = [key] ∧ key.length = 1 ∧ b = .noTileValue := by
  unfold readTile
  dsimp only
  rcases parts with _ | ⟨key, _ | ⟨token, rest⟩⟩
  · simp
  · by_cases hkey : key.length = 1
    · simp [hkey, eq_comm]
    · simp [hkey]
  · by_cases hkey : key.length = 1
    · simp only [List.headD_cons, hkey, List.getElem?_cons_succ, List.getElem?_cons_zero]
      cases tileId? token p.tileNames <;> simp
    · simp [hkey]

theorem not_breaksOff_declare {names : List String} {name : String} {twice : Cause} :
    ¬(declare line names name twice).BreaksOff b := by
  unfold declare
  split <;> simp

theorem not_breaksOff_readMessage : ¬(readMessage line p level head).BreaksOff b := by
  unfold readMessage
  split
  · simp
  · split <;> simp

theorem not_breaksOff_readSpawn : ¬(readSpawn line room parts).BreaksOff b := by
  unfold readSpawn
  split
  · split
    · simp
    · split <;> simp
  · simp

theorem not_breaksOff_readExit : ¬(readExit line room parts).BreaksOff b := by
  unfold readExit
  split
  · split <;> simp
  · simp

theorem not_breaksOff_readVerbs {verbs : String} : ¬(readVerbs line verbs).BreaksOff b := by
  refine not_breaksOff_foldlM (fun mask part c => ?_) _ _ _
  dsimp only
  split <;> simp

theorem not_breaksOff_readObject : ¬(readObject line room parts).BreaksOff b := by
  unfold readObject
  split
  · split
    · simp
    · unfold readObjectAt
      split
      · dsimp only
        split
        · simp
        · simp only [breaksOff_bind, not_breaksOff_readVerbs, false_or, not_exists, not_and]
          intro mask _
          split <;> simp
      · simp
  · simp

theorem not_breaksOff_inRoom {read : Room → Compiling Room} (h : ∀ room, ¬(read room).BreaksOff b) :
    ¬(inRoom p read).BreaksOff b := by
  unfold inRoom
  split <;> simp [h]

theorem readEntry_breaksOff : (readEntry line p level parts).BreaksOff b ↔
    p.part = some .tiles ∧ ∃ key, parts = [key] ∧ key.length = 1 ∧ b = .noTileValue := by
  unfold readEntry
  dsimp only
  split
  · rename_i hp
    simp [hp, readTile_breaksOff]
  all_goals
    rename_i hp
    simp [hp, not_breaksOff_declare, not_breaksOff_readMessage, not_breaksOff_inRoom fun _ => not_breaksOff_readSpawn, not_breaksOff_inRoom fun _ => not_breaksOff_readExit, not_breaksOff_inRoom fun _ => not_breaksOff_readObject]

theorem length_of_levelPart? {part : Part} (h : levelPart? head = some part) : head.length ≠ 1 := by
  unfold levelPart? at h
  split_ifs at h with h₁ h₂ h₃ h₄ h₅
  · exact h₁ ▸ by decide
  · exact h₂ ▸ by decide
  · exact h₃ ▸ by decide
  · exact h₄ ▸ by decide
  · exact h₅ ▸ by decide

theorem length_of_roomPart? {part : Part} (h : roomPart? head = some part) : head.length ≠ 1 := by
  unfold roomPart? at h
  split_ifs at h with h₁ h₂ h₃ h₄
  · exact h₁ ▸ by decide
  · exact h₂ ▸ by decide
  · exact h₃ ▸ by decide
  · exact h₄ ▸ by decide

theorem not_breaksOff_readScriptHeader {kind : ScriptKind} :
    ¬(readScriptHeader line p level kind parts).BreaksOff b := by
  unfold readScriptHeader
  split
  · extract_lets taken
    split <;> simp
  · simp

theorem not_breaksOff_readRoomHeader : ¬(readRoomHeader line p level parts).BreaksOff b := by
  unfold readRoomHeader
  split
  · split <;> simp
  · simp

theorem readHead_breaksOff : (readHead line p level parts).BreaksOff b ↔
    p.part = some .tiles ∧ ∃ key, parts = [key] ∧ key.length = 1 ∧ b = .noTileValue := by
  have hl : (parts.headD "").length ≠ 1 →
      ¬(p.part = some .tiles ∧ ∃ key, parts = [key] ∧ key.length = 1 ∧ b = .noTileValue) := by
    rintro hne ⟨-, key, rfl, hkey, -⟩
    exact hne hkey
  unfold readHead
  dsimp only
  split
  · rename_i hp
    exact iff_of_false (not_breaksOff_pure _ _) (hl (length_of_levelPart? hp))
  · rename_i hp
    refine iff_of_false ?_ (hl (length_of_roomPart? hp))
    split <;> simp
  · split
    · rename_i hh
      exact iff_of_false not_breaksOff_readScriptHeader (hl (hh ▸ by decide))
    · split
      · rename_i hh
        exact iff_of_false not_breaksOff_readScriptHeader (hl (hh ▸ by decide))
      · split
        · rename_i hh
          exact iff_of_false not_breaksOff_readRoomHeader (hl (hh ▸ by decide))
        · exact readEntry_breaksOff

/-- What is wrong with a line, so that the level cannot be read any further. -/
inductive LineFault (s : Sources) (p : Progress) (line : Line) : Breakdown → Prop
  | noTileValue {key : String} : p.script = none → p.part = some .tiles → p.headerSeen = true →
      p.level.isSome = true → Text.words line.text = [key] → key.length = 1 → LineFault s p line .noTileValue
  | tileset {b : Breakdown} : p.script = none → p.part ≠ some .map → (Text.words line.text).headD "" = "LEVEL" →
      LinkFault s (Fields.scan line.text) b → LineFault s p line b

theorem LineFault.ne_end (h : LineFault s p line b) : line.text ≠ "END" ∧ line.text ≠ "ENDROOM" := by
  constructor <;> intro hend
  · cases h with
    | noTileValue _ _ _ _ hw hkey =>
      rw [hend, words_end.1] at hw
      exact absurd hkey ((List.cons.inj hw).1 ▸ by decide)
    | tileset _ _ hh _ =>
      rw [hend, words_end.1] at hh
      exact absurd hh (by decide)
  · cases h with
    | noTileValue _ _ _ _ hw hkey =>
      rw [hend, words_end.2] at hw
      exact absurd hkey ((List.cons.inj hw).1 ▸ by decide)
    | tileset _ _ hh _ =>
      rw [hend, words_end.2] at hh
      exact absurd hh (by decide)

theorem readLine_breaksOff : (readLine s p line).BreaksOff b ↔ LineFault s p line b := by
  constructor
  · intro h
    unfold readLine at h
    split at h
    · simp at h
    · split at h
      · unfold readRoomEnd at h
        split at h <;> simp at h
      · split at h
        · simp at h
        · rename_i hs
          split at h
          · unfold readMapRow at h
            split at h <;> simp at h
          · rename_i hmap
            dsimp only at h
            split at h
            · rename_i hh
              exact .tileset hs hmap hh (readHeader_breaksOff.mp h)
            · split at h
              · simp at h
              · rename_i hse
                split at h
                · simp at h
                · rename_i level hl
                  obtain ⟨hp, key, hw, hkey, rfl⟩ := readHead_breaksOff.mp h
                  exact .noTileValue hs hp (by simpa using hse) (by simp [hl]) hw hkey
  · intro h
    unfold readLine
    rw [if_neg h.ne_end.1, if_neg h.ne_end.2]
    cases h with
    | noTileValue hs hp hse hl hw hkey =>
      rename_i key
      obtain ⟨level, hl⟩ := Option.isSome_iff_exists.mp hl
      have hh : key ≠ "LEVEL" := fun hh => absurd hkey (hh ▸ by decide)
      rw [hs, hw]
      dsimp only
      rw [if_neg (by simp [hp]), List.headD_cons, if_neg hh, if_neg (by simp [hse]), hl]
      exact readHead_breaksOff.mpr ⟨hp, key, rfl, hkey, rfl⟩
    | tileset hs hp hh hf =>
      rw [hs]
      dsimp only
      rw [if_neg hp, if_pos hh]
      exact readHeader_breaksOff.mpr hf

/-- What is wrong with a level file, so that it cannot be read to its end. -/
inductive Faulty (s : Sources) (text : String) (b : Breakdown) : Prop
  | line {done rest : List Line} {line : Line} {p : Progress} : sourceLines text = done ++ line :: rest →
      (done.foldlM (readLine s) {}).Returns p → LineFault s p line b → Faulty s text b

theorem not_breaksOff_finish : ¬(finish p).BreaksOff b := by
  unfold finish
  split
  · simp
  · split
    · simp
    · split <;> simp

theorem read_breaksOff {text : String} : (read s text).BreaksOff b ↔ Faulty s text b := by
  unfold read
  rw [breaksOff_bind_left (fun _ => not_breaksOff_finish), breaksOff_foldlM]
  constructor
  · rintro ⟨done, line, rest, p, hl, hp, hli⟩
    exact .line hl hp (readLine_breaksOff.mp hli)
  · rintro ⟨hl, hp, hli⟩
    exact ⟨_, _, _, _, hl, hp, readLine_breaksOff.mpr hli⟩

end EscapeRoom.Level

namespace EscapeRoom

/-- A file is read to its end exactly if nothing in it makes reading break off, and then there is a tileset or a level
whatever was reported. A breakdown is always one of the few that a faulty file accounts for. -/
theorem reading_returns_iff_not_faulty (s : Tileset.Surroundings) (s' : Level.Sources) (text : String) :
    (((∃ ts, (Tileset.read s text).Returns ts) ↔ ∀ b, ¬Tileset.Faulty s text b) ∧
      ∀ b, (Tileset.read s text).BreaksOff b ↔ Tileset.Faulty s text b) ∧
    ((∃ level, (Level.read s' text).Returns level) ↔ ∀ b, ¬Level.Faulty s' text b) ∧
      ∀ b, (Level.read s' text).BreaksOff b ↔ Level.Faulty s' text b := by
  refine ⟨⟨?_, fun b => Tileset.read_breaksOff⟩, ?_, fun b => Level.read_breaksOff⟩
  · simp only [Report.exists_returns_iff, Tileset.read_breaksOff]
  · simp only [Report.exists_returns_iff, Level.read_breaksOff]

/-- Reading breaks off at a map character that stands alone, in a tileset and in a level. -/
theorem reading_breaksOff_at_lone_char :
    (Tileset.read ⟨"a.tset", fun _ => false⟩ "TSET\nCHARMAP\n#").BreaksOff .noTileName ∧
    (Level.read ⟨"a.lvl", fun _ => false, fun _ => .error (.file .missing)⟩
      "LEVEL w=1 h=1 start=A:B\nTILES\n#").BreaksOff .noTileValue := by
  decide +kernel

end EscapeRoom
