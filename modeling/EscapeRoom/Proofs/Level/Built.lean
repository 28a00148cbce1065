import EscapeRoom.Level.Read
import EscapeRoom.Proofs.CleanRuns
import EscapeRoom.Proofs.Level.Records

/-!
# What reading builds

A level that is read without an issue is built up from its header by a few operations: a declaration, a
message, a script, a room. What each of these operations keeps holds of every level that is read.
-/

namespace EscapeRoom

open Report

/-- The rooms that reading builds, from a header line by lines of sections. -/
inductive Room.Built : Room → Prop
  | fresh (id name : String) (line : Nat) : Room.Built { id, name, line }
  | spawn {room : Room} (id : String) (s : Spawn) : room.Built →
      Room.Built { room with spawns := room.spawns.put id s }
  | exit {room : Room} (e : Exit) : room.Built → Room.Built { room with exits := room.exits ++ [e] }
  | object {room : Room} (o : LevelObject) : o.verbs < 32 → room.Built →
      Room.Built { room with objects := room.objects ++ [o] }
  | mapRow {room : Room} (line : Nat × String) : room.Built →
      Room.Built { room with map := room.map ++ [line] }

inductive Level.Built : Level → Prop
  | header (name : String) (width height : Int) (startRoom startSpawn : String) (line : Nat)
      (stamps : Table String Stamp) :
      Level.Built { name, width, height, startRoom, startSpawn, line, stamps }
  | tiles {level : Level} (tiles : Table String Int) : level.Built → Level.Built { level with tiles }
  | flag {level : Level} (name : String) : name ∉ level.flags → level.Built →
      Level.Built { level with flags := level.flags ++ [name] }
  | var {level : Level} (name : String) : name ∉ level.vars → level.Built →
      Level.Built { level with vars := level.vars ++ [name] }
  | item {level : Level} (name : String) : name ∉ level.items → level.Built →
      Level.Built { level with items := level.items ++ [name] }
  | message {level : Level} (name text : String) : level.Built →
      Level.Built { level with messages := level.messages.put name text }
  | cond {level : Level} (script : Script) : level.Built →
      Level.Built { level with conds := level.conds.put script.name script }
  | act {level : Level} (script : Script) : level.Built →
      Level.Built { level with acts := level.acts.put script.name script }
  | room {level : Level} {room : Room} : room.Built → level.Built →
      Level.Built { level with rooms := level.rooms.put room.id room }

namespace Level

def scripts (level : Level) : ScriptKind → Table String Script
  | .cond => level.conds
  | .act => level.acts

/-- The level and the room that are being read are built so far. -/
structure Progress.Built (p : Progress) : Prop where
  level : ∀ level, p.level = some level → level.Built
  room : ∀ room, p.room = some room → room.Built

theorem Progress.built_nil : Progress.Built {} :=
  ⟨by simp, by simp⟩

variable {s : Sources} {p p' : Progress} {line : Line} {level : Level} {room room' : Room} {parts : List String}

theorem Progress.Built.withLevel (hp : p.Built) (h : level.Built) : Progress.Built { p with level := some level } :=
  ⟨fun _ he => Option.some.inj he ▸ h, hp.room⟩

theorem Progress.Built.withRoom (hp : p.Built) (h : room.Built) : Progress.Built { p with room := some room } :=
  ⟨hp.level, fun _ he => Option.some.inj he ▸ h⟩

theorem words_end : Text.words "END" = ["END"] ∧ Text.words "ENDROOM" = ["ENDROOM"] := by
  decide +kernel

@[simp] theorem not_yields_reportAt {cause : Cause} {column : Nat} {u : Unit} :
    ¬(reportAt line cause column).Yields u :=
  not_yields_report _ _

@[simp] theorem not_yields_reportToken {cause : Cause} {token : String} {u : Unit} :
    ¬(reportToken line cause token).Yields u :=
  not_yields_reportAt

/-! What each kind of line does -/

theorem linkTileset_yields {tileset : String} (h : (linkTileset s line tileset p).Yields (.ok p')) :
    ∃ ts, (readTileset s (if Path.isAbsolute tileset then tileset else Path.join (Path.directory s.path) tileset)).Yields
        (.ok ts) ∧
      p' = { p with tileNames := ts.names, charmap := ts.charmap, stamps := ts.stamps } := by
  unfold linkTileset at h
  extract_lets path at h
  split at h
  · rw [yields_bind] at h
    obtain ⟨linked, hread, h⟩ := h
    cases linked with
    | ok ts =>
      simp only [yields_pure, Except.ok.injEq] at h
      exact ⟨ts, hread, h.symm⟩
    | error fault => simp at h
  · simp at h

/-- The level of a header has no tiles, no scripts and no rooms. -/
structure Begun (level : Level) : Prop where
  built : level.Built
  tiles : level.tiles = []
  scripts : ∀ kind, level.scripts kind = []
  rooms : level.rooms = []

theorem begun_headerLevel {fields : Fields} {width height : String} {start : String × String}
    (h : headerLevel line fields p width height start = .ok level) : level.Begun := by
  simp only [headerLevel, bind, Except.bind, pure, Except.pure] at h
  split at h
  · simp at h
  · split at h
    · simp at h
    · cases h
      exact ⟨.header .., rfl, fun kind => by cases kind <;> rfl, rfl⟩

/-- A header begins a level, after the tileset that it names, if it names one, is read. -/
theorem readHeader_cases (h : (readHeader s line p).Yields p') :
    ∃ level q, level.Begun ∧ p' = { q with level := some level } ∧
      ((Fields.scan line.text).get? "tset" = none ∧ q = { p with headerSeen := true } ∨
        ∃ tileset, (Fields.scan line.text).get? "tset" = some tileset ∧
          (linkTileset s line tileset { p with headerSeen := true }).Yields (.ok q)) := by
  unfold readHeader at h
  dsimp only at h
  split at h
  · split at h
    · simp at h
    · split at h
      · rename_i hnone
        rw [pure_bind] at h
        dsimp only at h
        split at h
        · simp at h
        · rename_i level hl
          rw [yields_pure] at h
          exact ⟨level, _, begun_headerLevel hl, h.symm, .inl ⟨hnone, rfl⟩⟩
      · rename_i tileset htileset
        rw [yields_bind] at h
        obtain ⟨linked, hli, h⟩ := h
        cases linked with
        | error fault => simp at h
        | ok q =>
          dsimp only at h
          split at h
          · simp at h
          · rename_i level hl
            rw [yields_pure] at h
            exact ⟨level, q, begun_headerLevel hl, h.symm, .inr ⟨tileset, htileset, hli⟩⟩
  · simp at h

theorem readHeader_yields (h : (readHeader s line p).Yields p') :
    ∃ level, level.Begun ∧ p'.level = some level ∧ p'.script = p.script ∧ p'.room = p.room := by
  obtain ⟨level, q, hbegun, rfl, ⟨-, rfl⟩ | ⟨tileset, -, hlink⟩⟩ := readHeader_cases h
  · exact ⟨level, hbegun, rfl, rfl, rfl⟩
  · obtain ⟨ts, -, rfl⟩ := linkTileset_yields hlink
    exact ⟨level, hbegun, rfl, rfl, rfl⟩

theorem readScriptHeader_yields {kind : ScriptKind} (h : (readScriptHeader line p level kind parts).Yields p') :
    parts.getD 1 "" ∉ (level.scripts kind).keys ∧ p' = { p with script := some (kind, ⟨parts.getD 1 "", []⟩) } := by
  unfold readScriptHeader at h
  split at h
  · extract_lets taken at h
    split at h
    · simp at h
    · rename_i hnew
      rw [yields_pure] at h
      refine ⟨?_, h.symm⟩
      rw [← Table.has_eq_false_iff]
      cases kind <;> simpa [taken, scripts] using hnew
  · simp at h

theorem readRoomHeader_yields (h : (readRoomHeader line p level parts).Yields p') : parts.getD 1 "" ∉ level.rooms.keys ∧
    p' = { p with
      room := some ⟨parts.getD 1 "", (Fields.scan line.text).getD "name" (parts.getD 1 ""), line.number, [], [], [], []⟩
      part := none } := by
  unfold readRoomHeader at h
  split at h
  · split at h
    · simp at h
    · rename_i hnew
      rw [yields_pure] at h
      exact ⟨Table.has_eq_false_iff.mp (by simpa using hnew), h.symm⟩
  · simp at h

theorem readTile_yields (h : (readTile line p level parts).Yields p') :
    ∃ id, tileId? (parts.getD 1 "") p.tileNames = some id ∧
      p' = { p with tilesSeen := true, level := some { level with tiles := level.tiles.put (parts.headD "") id } } := by
  unfold readTile at h
  extract_lets key q at h
  split at h
  · simp at h
  · split at h
    · simp at h
    · rename_i token htoken
      split at h
      · rename_i id hid
        rw [yields_pure] at h
        exact ⟨id, by rw [List.getD_eq_getElem?_getD, htoken]; exact hid, h.symm⟩
      · simp at h

theorem readMessage_yields {head : String} (h : (readMessage line p level head).Yields p') :
    ∃ name text, p' = { p with level := some { level with messages := level.messages.put name text } } := by
  unfold readMessage at h
  split at h
  · simp at h
  · split at h
    · simp at h
    · rw [yields_pure] at h
      exact ⟨_, _, h.symm⟩

theorem readSpawn_yields (h : (readSpawn line room parts).Yields room') :
    ∃ s : Spawn, s.line = line.number ∧ parts.headD "" ∉ room.spawns.keys ∧
      room' = { room with spawns := room.spawns.put (parts.headD "") s } := by
  unfold readSpawn at h
  split at h
  · split at h
    · simp at h
    · rename_i hnew
      split at h
      · rw [yields_pure] at h
        exact ⟨_, rfl, Table.has_eq_false_iff.mp (by simpa using hnew), h.symm⟩
      · simp at h
  · simp at h

theorem readExit_yields (h : (readExit line room parts).Yields room') :
    ∃ e : Exit, e.edge = parts.headD "" ∧ e.line = line.number ∧
      room' = { room with exits := room.exits ++ [e] } := by
  unfold readExit at h
  split at h
  · split at h
    · rw [yields_pure] at h
      exact ⟨_, rfl, rfl, h.symm⟩
    · simp at h
  · simp at h

theorem verbBit?_lt {name : String} {bit : Nat} (h : verbBit? name = some bit) : bit < 5 :=
  (List.findIdx?_eq_some_iff_findIdx_eq.mp h).1

theorem readVerbs_lt {verbs : String} {mask : Nat} (h : (readVerbs line verbs).Yields mask) :
    mask < 32 := by
  refine Report.Yields.foldlM_induction (P := fun _ mask => mask < 32) h (by decide) ?_
  intro _ part _ mask mask' _ hm hs
  dsimp only at hs
  split at hs
  · rename_i bit hbit
    rw [yields_pure] at hs
    have hpow : 1 <<< bit < 2 ^ 5 := by
      rw [Nat.one_shiftLeft]
      exact Nat.pow_lt_pow_right (by decide) (verbBit?_lt hbit)
    exact hs ▸ Nat.or_lt_two_pow (n := 5) hm hpow
  · simp at hs

theorem readObject_yields (h : (readObject line room parts).Yields room') :
    ∃ o : LevelObject, o.name = parts.headD "" ∧ o.line = line.number ∧ o.verbs < 32 ∧
      room' = { room with objects := room.objects ++ [o] } := by
  unfold readObject at h
  split at h
  · split at h
    · simp at h
    · unfold readObjectAt at h
      split at h
      · dsimp only at h
        split at h
        · simp at h
        · rw [yields_bind] at h
          obtain ⟨verbs, hv, h⟩ := h
          split at h
          · rw [yields_pure] at h
            exact ⟨_, rfl, rfl, readVerbs_lt hv, h.symm⟩
          · simp at h
      · simp at h
  · simp at h

theorem inRoom_yields {read : Room → Compiling Room} (h : (inRoom p read).Yields p') :
    p.room = none ∧ p' = p ∨
    ∃ room room', p.room = some room ∧ (read room).Yields room' ∧ p' = { p with room := some room' } := by
  unfold inRoom at h
  split at h
  · rename_i room hr
    simp only [yields_bind, yields_pure] at h
    obtain ⟨room', hr', rfl⟩ := h
    exact .inr ⟨room, room', hr, hr', rfl⟩
  · rename_i hr
    exact .inl ⟨hr, (yields_pure.mp h).symm⟩

theorem declare_yields {names names' : List String} {name : String} {twice : Cause}
    (h : (declare line names name twice).Yields names') : name ∉ names ∧ names' = names ++ [name] := by
  unfold declare at h
  split at h
  · simp at h
  · rename_i hnew
    rw [yields_pure] at h
    exact ⟨by simpa using hnew, h.symm⟩

theorem addAlways_eq (level : Level) : addAlways level = { level with conds := (addAlways level).conds } := by
  unfold addAlways
  split <;> rfl

theorem finish_yields (h : (finish p).Yields level) :
    ∃ found, p.level = some found ∧ level = addAlways { found with tiles := level.tiles } := by
  have ht : ∀ found : Level, (addAlways found).tiles = found.tiles := fun found => by rw [addAlways_eq]
  unfold finish at h
  split at h
  · simp at h
  · rename_i found hf
    refine ⟨found, hf, ?_⟩
    split at h
    · rw [yields_pure] at h
      rw [← h, ht]
    · split at h
      · simp at h
      · rw [yields_pure] at h
        rw [← h, ht]

/-! What any line does -/

structure Visit where
  before : Progress
  line : Line

namespace Visit

def head (v : Visit) : String :=
  (Text.words v.line.text).headD ""

def declaredName (v : Visit) : String :=
  (Text.words v.line.text).getD 1 ""

def beginnings : List String :=
  ["LEVEL", "TILES", "FLAGS", "VARS", "ITEMS", "MESSAGES", "SPAWNS", "EXITS", "OBJECTS", "MAP", "COND", "ACT", "ROOM"]

end Visit

variable {v : Visit} {head : String} {part : Part}

theorem head_of_levelPart? (h : levelPart? head = some part) :
    head ∈ Visit.beginnings ∧ head ∉ ["LEVEL", "COND", "ACT", "ROOM"] := by
  unfold levelPart? at h
  split_ifs at h with h₁ h₂ h₃ h₄ h₅ <;> subst_vars <;> decide

theorem head_of_roomPart? (h : roomPart? head = some part) :
    head ∈ Visit.beginnings ∧ head ∉ ["LEVEL", "COND", "ACT", "ROOM"] := by
  unfold roomPart? at h
  split_ifs at h with h₁ h₂ h₃ h₄ <;> subst_vars <;> decide

theorem not_mem_beginnings (hl : levelPart? head = none) (hr : roomPart? head = none)
    (h : head ∉ ["LEVEL", "COND", "ACT", "ROOM"]) : head ∉ Visit.beginnings := by
  unfold levelPart? at hl
  unfold roomPart? at hr
  split_ifs at hl hr
  simp_all [Visit.beginnings]

/-- What a line of a section does to the room that is being read. -/
inductive Visit.InRoom (v : Visit) (room : Room) : Part → Room → Prop
  | spawn {s : Spawn} : s.line = v.line.number → v.head ∉ room.spawns.keys →
      v.InRoom room .spawns { room with spawns := room.spawns.put v.head s }
  | exit {e : Exit} : e.edge = v.head → e.line = v.line.number →
      v.InRoom room .exits { room with exits := room.exits ++ [e] }
  | object {o : LevelObject} : o.name = v.head → o.line = v.line.number → o.verbs < 32 →
      v.InRoom room .objects { room with objects := room.objects ++ [o] }

/-- The level gets a name or a message, and is the same in all else. -/
structure Names (level level' : Level) : Prop where
  built : level.Built → level'.Built
  tiles : level'.tiles = level.tiles
  scripts : ∀ kind, level'.scripts kind = level.scripts kind
  rooms : level'.rooms = level.rooms

/-- What a line of a section does. -/
inductive Visit.InSection (v : Visit) (level : Level) : Part → Progress → Prop
  | tile {id : Int} : tileId? v.declaredName v.before.tileNames = some id → v.InSection level .tiles
      { v.before with tilesSeen := true, level := some { level with tiles := level.tiles.put v.head id } }
  | name {part : Part} {level' : Level} : part ∈ [.flags, .vars, .items, .messages] → level.Names level' →
      v.InSection level part { v.before with level := some level' }
  | room {part : Part} {room room' : Room} : v.before.room = some room → v.InRoom room part room' →
      v.InSection level part { v.before with room := some room' }
  | noRoom {part : Part} : part ∈ [.spawns, .exits, .objects] → v.before.room = none → v.InSection level part v.before

theorem inSection_of_inRoom {read : Room → Compiling Room} (hp : part ∈ [.spawns, .exits, .objects])
    (hr : ∀ room room', (read room).Yields room' → v.InRoom room part room') (h : (inRoom v.before read).Yields p') :
    v.InSection level part p' := by
  obtain ⟨hno, rfl⟩ | ⟨room, room', hro, hr', rfl⟩ := inRoom_yields h
  · exact .noRoom hp hno
  · exact .room hro (hr room room' hr')

theorem inSection_of_readEntry (h : (readEntry v.line v.before level (Text.words v.line.text)).Yields p') :
    ∃ part, v.before.part = some part ∧ v.InSection level part p' := by
  unfold readEntry at h
  extract_lets head at h
  split at h <;> rename_i hp
  · obtain ⟨id, hid, rfl⟩ := readTile_yields h
    exact ⟨_, hp, .tile hid⟩
  · obtain ⟨flags, hf, rfl⟩ := by simpa only [yields_bind, yields_pure] using h
    obtain ⟨hnew, rfl⟩ := declare_yields hf
    exact ⟨_, hp, .name (by simp) ⟨fun hl => hl.flag head hnew, rfl, fun kind => by cases kind <;> rfl, rfl⟩⟩
  · obtain ⟨vars, hv, rfl⟩ := by simpa only [yields_bind, yields_pure] using h
    obtain ⟨hnew, rfl⟩ := declare_yields hv
    exact ⟨_, hp, .name (by simp) ⟨fun hl => hl.var head hnew, rfl, fun kind => by cases kind <;> rfl, rfl⟩⟩
  · obtain ⟨items, hi, rfl⟩ := by simpa only [yields_bind, yields_pure] using h
    obtain ⟨hnew, rfl⟩ := declare_yields hi
    exact ⟨_, hp, .name (by simp) ⟨fun hl => hl.item head hnew, rfl, fun kind => by cases kind <;> rfl, rfl⟩⟩
  · obtain ⟨name, text, rfl⟩ := readMessage_yields h
    exact ⟨_, hp, .name (by simp) ⟨fun hl => hl.message name text, rfl, fun kind => by cases kind <;> rfl, rfl⟩⟩
  · refine ⟨_, hp, inSection_of_inRoom (by simp) (fun room room' hr => ?_) h⟩
    obtain ⟨s, hs, hnew, rfl⟩ := readSpawn_yields hr
    exact .spawn hs hnew
  · refine ⟨_, hp, inSection_of_inRoom (by simp) (fun room room' hr => ?_) h⟩
    obtain ⟨e, hedge, hl, rfl⟩ := readExit_yields hr
    exact .exit hedge hl
  · refine ⟨_, hp, inSection_of_inRoom (by simp) (fun room room' hr => ?_) h⟩
    obtain ⟨o, hn, hl, hv, rfl⟩ := readObject_yields hr
    exact .object hn hl hv
  · simp at h
  · simp at h

/-- The line ends nothing, and stands outside scripts and maps. -/
structure Visit.GoesOn (v : Visit) : Prop where
  script : v.before.script = none
  part : v.before.part ≠ some .map
  noEnd : v.line.text ≠ "END"
  noRoomEnd : v.line.text ≠ "ENDROOM"

/-- All that a line can do that is read without an issue. -/
inductive Visit.Does (s : Sources) (v : Visit) : Progress → Prop
  | endScript {kind : ScriptKind} {script : Script} {level : Level} : v.line.text = "END" →
      v.before.script = some (kind, script) → v.before.level = some level →
      v.Does s { closeScript v.before level kind script with part := none }
  | endPart : v.line.text = "END" → v.before.script = none ∨ v.before.level = none →
      v.Does s { v.before with part := none }
  | endRoom {level : Level} {room : Room} : v.line.text = "ENDROOM" → v.before.level = some level →
      v.before.room = some room →
      v.Does s { v.before with
        level := some { level with rooms := level.rooms.put room.id room }
        room := none
        part := none }
  | scriptLine {kind : ScriptKind} {script : Script} : v.line.text ≠ "END" → v.line.text ≠ "ENDROOM" →
      v.before.script = some (kind, script) →
      v.Does s { v.before with
        script := some (kind, { script with lines := script.lines ++ [(v.line.number, v.line.text)] }) }
  | mapRow {room : Room} : v.before.script = none → v.line.text ≠ "END" → v.line.text ≠ "ENDROOM" →
      v.before.part = some .map → v.before.room = some room →
      v.Does s { v.before with room := some { room with map := room.map ++ [(v.line.number, v.line.text)] } }
  | header {p : Progress} : v.GoesOn → v.head = "LEVEL" → (readHeader s v.line v.before).Yields p → v.Does s p
  | ignored : v.GoesOn → v.head ≠ "LEVEL" → v.before.level = none → v.Does s v.before
  | part {level : Level} {part : Part} : v.GoesOn → v.before.level = some level →
      v.head ∈ Visit.beginnings ∧ v.head ∉ ["LEVEL", "COND", "ACT", "ROOM"] → v.Does s { v.before with part := some part }
  | script {level : Level} {kind : ScriptKind} : v.GoesOn → v.before.level = some level → v.head = kind.keyword →
      v.declaredName ∉ (level.scripts kind).keys →
      v.Does s { v.before with script := some (kind, ⟨v.declaredName, []⟩) }
  | room {level : Level} : v.GoesOn → v.before.level = some level → v.head = "ROOM" →
      v.declaredName ∉ level.rooms.keys →
      v.Does s { v.before with
        room := some ⟨v.declaredName, (Fields.scan v.line.text).getD "name" v.declaredName, v.line.number, [], [], [], []⟩
        part := none }
  | entry {level : Level} {part : Part} {p : Progress} : v.GoesOn → v.before.level = some level →
      v.head ∉ Visit.beginnings → v.before.part = some part → v.InSection level part p → v.Does s p

theorem does_of_readHead (hg : v.GoesOn) (hl : v.before.level = some level) (hh : v.head ≠ "LEVEL")
    (h : (readHead v.line v.before level (Text.words v.line.text)).Yields p') : v.Does s p' := by
  unfold readHead at h
  dsimp only at h
  split at h
  · rename_i hp
    rw [yields_pure] at h
    exact h ▸ .part hg hl (head_of_levelPart? hp)
  · rename_i hp
    split at h
    · rw [yields_pure] at h
      exact h ▸ .part hg hl (head_of_roomPart? hp)
    · simp at h
  · rename_i hnl hnr
    split at h
    · rename_i hc
      obtain ⟨hnew, rfl⟩ := readScriptHeader_yields h
      exact .script hg hl hc hnew
    · rename_i hc
      split at h
      · rename_i hact
        obtain ⟨hnew, rfl⟩ := readScriptHeader_yields h
        exact .script hg hl hact hnew
      · rename_i hact
        split at h
        · rename_i hr
          obtain ⟨hnew, rfl⟩ := readRoomHeader_yields h
          exact .room hg hl hr hnew
        · rename_i hr
          obtain ⟨part, hp, hs⟩ := inSection_of_readEntry h
          have hn : v.head ∉ ["LEVEL", "COND", "ACT", "ROOM"] := by
            simp only [List.mem_cons, List.not_mem_nil, or_false, not_or]
            exact ⟨hh, hc, hact, hr⟩
          exact .entry hg hl (not_mem_beginnings hnl hnr hn) hp hs

theorem does_of_readLine (h : (readLine s v.before v.line).Yields p') : v.Does s p' := by
  unfold readLine at h
  split at h
  · rename_i hend
    rw [yields_pure, readEnd] at h
    split at h
    · rename_i hs hl
      exact h ▸ .endScript hend hs hl
    · rename_i hno
      refine h ▸ .endPart hend ?_
      by_contra! hopen
      obtain ⟨⟨kind, script⟩, hs⟩ := Option.ne_none_iff_exists'.mp hopen.1
      obtain ⟨level, hl⟩ := Option.ne_none_iff_exists'.mp hopen.2
      exact hno kind script level hs hl
  · rename_i hend
    split at h
    · rename_i hre
      unfold readRoomEnd at h
      split at h
      · rename_i hl hr
        rw [yields_pure] at h
        exact h ▸ .endRoom hre hl hr
      · simp at h
    · rename_i hre
      split at h
      · rename_i hs
        rw [yields_pure] at h
        exact h ▸ .scriptLine hend hre hs
      · rename_i hs
        split at h
        · rename_i hmap
          unfold readMapRow at h
          split at h
          · rename_i hr
            rw [yields_pure] at h
            exact h ▸ .mapRow hs hend hre hmap hr
          · simp at h
        · rename_i hmap
          have hg : v.GoesOn := ⟨hs, hmap, hend, hre⟩
          dsimp only at h
          split at h
          · rename_i hh
            exact .header hg hh h
          · rename_i hh
            split at h
            · simp at h
            · split at h
              · rename_i hl
                rw [yields_pure] at h
                exact h ▸ .ignored hg hh hl
              · rename_i level hl
                exact does_of_readHead hg hl hh h

/-! What reading keeps -/

theorem Visit.InRoom.built (h : v.InRoom room part room') (hr : room.Built) : room'.Built := by
  cases h with
  | spawn => exact hr.spawn _ _
  | exit => exact hr.exit _
  | object _ _ hv => exact hr.object _ hv

theorem Visit.InSection.built (h : v.InSection level part p') (hp : v.before.Built) (hl : level.Built) : p'.Built := by
  cases h with
  | tile => exact ⟨fun _ he => Option.some.inj he ▸ hl.tiles _, hp.room⟩
  | name _ hn => exact hp.withLevel (hn.built hl)
  | room hr hs => exact hp.withRoom (hs.built (hp.room _ hr))
  | noRoom => exact hp

theorem Visit.Does.built (h : v.Does s p') (hp : v.before.Built) : p'.Built := by
  cases h with
  | @endScript kind script level _ _ hl =>
    have hl := hp.level level hl
    cases kind with
    | cond => exact ⟨fun _ he => Option.some.inj he ▸ hl.cond script, hp.room⟩
    | act => exact ⟨fun _ he => Option.some.inj he ▸ hl.act script, hp.room⟩
  | endRoom _ hl hr => exact ⟨fun _ he => Option.some.inj he ▸ (hp.level _ hl).room (hp.room _ hr), by simp⟩
  | mapRow _ _ _ _ hr => exact hp.withRoom ((hp.room _ hr).mapRow _)
  | header _ _ h =>
    obtain ⟨level, hb, hl, -, hr⟩ := readHeader_yields h
    exact ⟨fun _ he => Option.some.inj (hl.symm.trans he) ▸ hb.built, hr ▸ hp.room⟩
  | room => exact ⟨hp.level, fun _ he => Option.some.inj he ▸ .fresh ..⟩
  | entry _ hl _ _ hs => exact hs.built hp (hp.level _ hl)
  | endPart | scriptLine | ignored | part | script => exact ⟨hp.level, hp.room⟩

theorem addAlways_built (h : level.Built) : (addAlways level).Built := by
  unfold addAlways
  split
  · exact h
  · exact h.cond { name := "ALWAYS", lines := [(level.line, "TRUE")] }

theorem finish_built (hp : p.Built) (h : (finish p).Yields level) : level.Built := by
  obtain ⟨found, hf, hl⟩ := finish_yields h
  exact hl ▸ addAlways_built ((hp.level found hf).tiles _)

theorem built_of_load (h : (load s).Yields (some level)) : level.Built := by
  unfold load at h
  split at h
  · simp at h
  · simp only [read, yields_map, yields_bind, Option.some.injEq, exists_eq_right] at h
    obtain ⟨p, hp, h⟩ := h
    refine finish_built (Report.Yields.foldlM_induction (P := fun _ p => p.Built) hp
      Progress.built_nil ?_) h
    intro _ line _ p p' _ hp hs
    exact (does_of_readLine (v := ⟨p, line⟩) hs).built hp

/-! What all built levels have in common -/

theorem nodup_spawns_of_built (h : room.Built) : room.spawns.keys.Nodup := by
  induction h with
  | fresh => exact List.nodup_nil
  | spawn id s _ ih => exact Table.nodup_keys_put ih id s
  | exit _ _ ih => exact ih
  | object _ _ _ ih => exact ih
  | mapRow _ _ ih => exact ih

theorem verbs_lt_of_built (h : room.Built) : ∀ o ∈ room.objects, o.verbs < 32 := by
  induction h with
  | fresh => simp
  | spawn _ _ _ ih => exact ih
  | exit _ _ ih => exact ih
  | object o ho _ ih =>
    intro o' ho'
    rcases List.mem_append.mp ho' with hold | hnew
    · exact ih o' hold
    · exact List.mem_singleton.mp hnew ▸ ho
  | mapRow _ _ ih => exact ih

theorem rooms_built_of_built (h : level.Built) : ∀ room ∈ level.rooms.values, room.Built := by
  induction h with
  | room hr _ ih => exact Table.forall_mem_values_put ih hr
  | header => simp [Table.values]
  | tiles _ _ ih | flag _ _ _ ih | var _ _ _ ih | item _ _ _ ih | message _ _ _ ih | cond _ _ ih
  | act _ _ ih => exact ih

theorem keyed_of_built (h : level.Built) : level.Keyed := by
  have hs : ∀ room ∈ level.rooms.values, room.spawns.keys.Nodup := fun room hr =>
    nodup_spawns_of_built (rooms_built_of_built h room hr)
  suffices hk : level.rooms.keys.Nodup ∧ level.messages.keys.Nodup ∧ level.conds.keys.Nodup ∧
      level.acts.keys.Nodup from ⟨hk.1, hs, hk.2.1, hk.2.2.1, hk.2.2.2⟩
  clear hs
  induction h with
  | header => simp [Table.keys]
  | tiles _ _ ih | flag _ _ _ ih | var _ _ _ ih | item _ _ _ ih => exact ih
  | message name text _ ih => exact ⟨ih.1, Table.nodup_keys_put ih.2.1 name text, ih.2.2⟩
  | cond script _ ih => exact ⟨ih.1, ih.2.1, Table.nodup_keys_put ih.2.2.1 _ script, ih.2.2.2⟩
  | act script _ ih => exact ⟨ih.1, ih.2.1, ih.2.2.1, Table.nodup_keys_put ih.2.2.2 _ script⟩
  | @room _ room _ _ ih => exact ⟨Table.nodup_keys_put ih.1 _ room, ih.2⟩

/-- The declared names of a level that is read are different. -/
structure Declared (level : Level) : Prop where
  flags : level.flags.Nodup
  vars : level.vars.Nodup
  items : level.items.Nodup

theorem declared_of_built (h : level.Built) : level.Declared := by
  have hc : ∀ {names : List String} {name : String}, names.Nodup → name ∉ names →
      (names ++ [name]).Nodup := fun hn hnew => List.concat_eq_append ▸ hn.concat hnew
  induction h with
  | header => exact ⟨List.nodup_nil, List.nodup_nil, List.nodup_nil⟩
  | flag name hn _ ih => exact ⟨hc ih.flags hn, ih.vars, ih.items⟩
  | var name hn _ ih => exact ⟨ih.flags, hc ih.vars hn, ih.items⟩
  | item name hn _ ih => exact ⟨ih.flags, ih.vars, hc ih.items hn⟩
  | tiles _ _ ih | message _ _ _ ih | cond _ _ ih | act _ _ ih | room _ _ ih =>
    exact ⟨ih.flags, ih.vars, ih.items⟩

end Level

end EscapeRoom
