import EscapeRoom.Level.Blob
import EscapeRoom.Proofs.Level.Collisions
import EscapeRoom.Proofs.Level.Records

/-!
# Where the parts of a blob lie

The parts of a blob lie one after the other, and how long each of them is can be told from the level alone, whatever is
reported about it: a part of a level that cannot be compiled either takes its place all the same or is left out. So the
offsets are known before anything is compiled, and compiling breaks off exactly if stamps meet below a map or an offset
does not fit into its two bytes.
-/

namespace EscapeRoom

open Report

/-- Where parts begin that lie one after the other from an offset. -/
def begins : List Nat → Nat → List Nat
  | [], _ => []
  | size :: sizes, offset => offset :: begins sizes (offset + size)

def ending : List Nat → Nat → Nat
  | [], offset => offset
  | size :: sizes, offset => ending sizes (offset + size)

theorem begins_append (xs ys : List Nat) (offset : Nat) :
    begins (xs ++ ys) offset = begins xs offset ++ begins ys (ending xs offset) := by
  induction xs generalizing offset with
  | nil => rfl
  | cons x xs ih => rw [List.cons_append, begins, begins, ending, ih, List.cons_append]

theorem ending_append (xs ys : List Nat) (offset : Nat) :
    ending (xs ++ ys) offset = ending ys (ending xs offset) := by
  induction xs generalizing offset with
  | nil => rfl
  | cons x xs ih => rw [List.cons_append, ending, ending, ih]

theorem ending_add (sizes : List Nat) (a b : Nat) : ending sizes (a + b) = a + ending sizes b := by
  induction sizes generalizing b with
  | nil => rfl
  | cons size sizes ih => rw [ending, ending, Nat.add_assoc, ih]

theorem Level.textOffsets_eq_begins (texts : List Bytes) (offset : Nat) :
    textOffsets texts offset = begins (texts.map List.length) offset := by
  induction texts generalizing offset with
  | nil => rfl
  | cons text rest ih => rw [textOffsets, List.map_cons, begins, ih]

theorem Table.has_eq_decide {κ ν : Type} [DecidableEq κ] (t : Table κ ν) (k : κ) : t.has k = decide (k ∈ t.keys) := by
  by_cases hk : k ∈ t.keys
  · rw [decide_eq_true hk, ← Bool.not_eq_false, Table.has_eq_false_iff, not_not]
    exact hk
  · rw [decide_eq_false hk, Table.has_eq_false_iff]
    exact hk

/-! ### Scripts -/

namespace ScriptLine

variable {α : Type}

def isStop : ScriptLine α → Bool
  | .stop => true
  | _ => false

def isStep : ScriptLine α → Bool
  | .step _ => true
  | _ => false

end ScriptLine

/-- The size of a script's code: three bytes for each operation up to the end of the script, and three that end it. -/
def Script.codeSize {α : Type} (readLine : String → ScriptLine α) (script : Script) : Nat :=
  3 * ((((script.lines.map fun line => readLine line.2).takeWhile (!·.isStop)).countP (·.isStep)) + 1)

namespace Level

variable {level : Level} {ids : Ids} {conds acts : Stream} {room : Room} {b : Breakdown}

theorem resolveId_ends (table : Table String Nat) (kind : IdKind) (name : String) (line : Nat) :
    (resolveId table kind name line).Ends fun _ => True := by
  unfold resolveId
  split
  · exact ends_pure trivial
  · exact (returns_report _ ()).ends_bind (ends_pure trivial)

theorem byteValue_ends (text : String) (cause : Cause) (line column : Nat) :
    (byteValue text cause line column).Ends fun _ => True := by
  unfold byteValue
  split
  · exact ends_pure trivial
  · exact (returns_report _ ()).ends_bind (ends_pure trivial)


theorem condition_compile_ends (ids : Ids) (line : Nat) (raw : String) (c : Condition) :
    (c.compile ids line raw).Ends fun _ => True := by
  unfold Condition.compile
  cases c with
  | always => exact ends_pure trivial
  | varEquals var value =>
    exact (resolveId_ends _ _ _ _).bind fun _ _ => (byteValue_ends _ _ _ _).bind fun _ _ => ends_pure trivial
  | _ => exact (resolveId_ends _ _ _ _).bind fun _ _ => ends_pure trivial

theorem action_compile_ends (ids : Ids) (line : Nat) (raw : String) (a : Action) :
    (a.compile ids line raw).Ends fun _ => True := by
  unfold Action.compile
  cases a with
  | setVar var value =>
    exact (resolveId_ends _ _ _ _).bind fun _ _ => (byteValue_ends _ _ _ _).bind fun _ _ => ends_pure trivial
  | playSound sound => exact (byteValue_ends _ _ _ _).bind fun _ _ => ends_pure trivial
  | transition room spawn =>
    refine (resolveId_ends _ _ _ _).bind fun _ _ => ?_
    split
    · exact ends_pure trivial
    · exact (returns_report _ ()).ends_bind (ends_pure trivial)
  | _ => exact (resolveId_ends _ _ _ _).bind fun _ _ => ends_pure trivial

theorem compileLines_ends {α : Type} {readLine : String → ScriptLine α}
    {compile : Nat → String → α → Compiling Instruction} (h : ∀ line raw a, (compile line raw a).Ends fun _ => True)
    (lines : List (Nat × String)) : (Script.compileLines readLine compile lines).Ends fun code => code.length =
      3 * ((((lines.map fun line => readLine line.2).takeWhile (!·.isStop)).countP (·.isStep)) + 1) := by
  induction lines with
  | nil => exact ends_pure rfl
  | cons line rest ih =>
    unfold Script.compileLines
    cases hl : readLine line.2 with
    | blank => simpa [hl, ScriptLine.isStop, ScriptLine.isStep] using ih
    | stop =>
      refine ends_pure ?_
      simp [hl, ScriptLine.isStop, Instruction.stop, Instruction.bytes]
    | fault cause column =>
      refine (returns_report _ ()).ends_bind ?_
      simpa [hl, ScriptLine.isStop, ScriptLine.isStep] using ih
    | step operation =>
      refine (h _ _ _).bind fun i _ => ih.bind fun code hc => ends_pure ?_
      simp only [List.length_append, hc, List.map_cons, hl, ScriptLine.isStop, ScriptLine.isStep,
        List.takeWhile_cons, Bool.not_false, if_true, List.countP_cons, Instruction.bytes, List.length_cons,
        List.length_nil]
      omega

theorem stream_ends {code : Script → Compiling Bytes} {size : Script → Nat} (base : Stream)
    (h : ∀ script, (code script).Ends fun bytes => bytes.length = size script) (scripts : Table String Script) :
    (scripts.foldlM (fun (s : Stream) (e : String × Script) => do return s.add e.1 (← code e.2)) base).Ends
      fun s => s.code.length = ending (scripts.values.map size) base.code.length := by
  refine Ends.foldlM (P := fun done (s : Stream) =>
    s.code.length = ending ((Table.values done).map size) base.code.length) rfl ?_
  rintro done ⟨name, script⟩ s hs
  refine (h script).bind fun bytes hb => ends_pure ?_
  simp only [Table.values, List.map_append, List.map_cons, List.map_nil, ending_append, ending, Stream.add,
    List.length_append, hb] at hs ⊢
  rw [hs]

theorem conditionStream_ends (ids : Ids) (level : Level) : (conditionStream ids level).Ends fun s =>
    s.code.length = ending (level.conds.values.map (Script.codeSize Condition.readLine)) 0 :=
  stream_ends {} (fun script => compileLines_ends (condition_compile_ends ids) script.lines) level.conds

theorem actionStream_ends (ids : Ids) (level : Level) : (actionStream ids level).Ends fun s =>
    s.code.length = ending (level.acts.values.map (Script.codeSize Action.readLine)) 3 :=
  stream_ends idleStream (fun script => compileLines_ends (action_compile_ends ids) script.lines) level.acts

/-! ### Rooms -/

/-- The exit has an edge that exists, and it leads to a spawn point that does. -/
def leads (level : Level) (e : Exit) : Bool :=
  exitEdges.has e.edge && (level.rooms.get? e.room).any fun room => room.spawns.has e.spawn

/-- The sizes of the parts of a room: its map, its spawn points, its exits as far as they lead somewhere, and its objects
as far as their kinds are known. -/
def partSizes (level : Level) (room : Room) : List Nat :=
  [level.width.toNat * level.height.toNat, 1 + 2 * room.spawns.length, 1 + 3 * room.exits.countP (leads level),
    1 + objectRecordSize * room.objects.countP fun o => objectTypes.has o.typeName]

/-- The offsets that a blob holds: first those of the messages, then those of the parts of all rooms. -/
def offsets (level : Level) : List Nat :=
  let rooms := level.rooms.values.flatMap (partSizes level)
  let roomsStart := headerSize + level.rooms.length * directoryEntrySize
  let condStream := ending rooms roomsStart
  let actStream := ending (level.conds.values.map (Script.codeSize Condition.readLine)) condStream
  let messageTable := ending (3 :: level.acts.values.map (Script.codeSize Action.readLine)) actStream
  begins (level.messages.values.map fun text => text.toList.length + 1) (messageTable + 1 + 2 * level.messages.length) ++
    begins rooms roomsStart

theorem has_number (names : List String) (name : String) : (Ids.number names).has name = decide (name ∈ names) := by
  induction names using List.reverseRecOn with
  | nil => rfl
  | append_singleton names last ih =>
    rw [Table.has] at ih ⊢
    rw [Ids.number_concat, Table.get?_put]
    split
    · rename_i he
      simp [he]
    · rename_i hne
      rw [ih]
      simp [Ne.symm hne]

theorem leads_eq (level : Level) (e : Exit) : leads level e =
    (exitEdges.has e.edge && (level.ids.rooms.has e.room && (level.ids.spawn? e.room e.spawn).isSome)) := by
  unfold leads ids Ids.spawn?
  dsimp only
  rw [has_number, Table.get?_mapValues level.rooms fun room => Ids.number room.spawns.keys]
  cases hr : level.rooms.get? e.room with
  | none => simp
  | some room =>
    have hmem : decide (e.room ∈ level.rooms.keys) = true := by
      rw [← Table.has_eq_decide, Table.has, hr, Option.isSome_some]
    have hs : (Table.get? (Ids.number room.spawns.keys) e.spawn).isSome = room.spawns.has e.spawn := by
      rw [← Table.has, has_number, Table.has_eq_decide]
    simp [hmem, hs]

theorem exitRecord_ends (level : Level) (room : Room) (e : Exit) : (exitRecord level.ids room e).Ends
    fun record => record.map (fun bytes => bytes.length) = if leads level e then some 3 else none := by
  have hf : ∀ cause : Cause, leads level e = false → (do
      Report.report { cause, line := e.line }
      return none : Compiling (Option Bytes)).Ends
        fun record => record.map (fun bytes => bytes.length) = if leads level e then some 3 else none := by
    intro cause hl
    rw [hl]
    exact (returns_report _ ()).ends_bind (ends_pure rfl)
  have hl := leads_eq level e
  unfold exitRecord
  dsimp only
  cases he : exitEdges.get? e.edge with
  | none => exact hf _ (by simp [hl, Table.has, he])
  | some edge =>
    dsimp only
    cases hr : level.ids.rooms.get? e.room with
    | none => exact hf _ (by simp [hl, Table.has, hr])
    | some destination =>
      dsimp only
      cases hs : level.ids.spawn? e.room e.spawn with
      | none => exact hf _ (by simp [hl, hs])
      | some spawn => exact ends_pure (by simp [hl, Table.has, he, hr, hs])

/-- Records of one size lie one after the other, those that are missing left out. -/
theorem length_flatMap_of_forall₂ {α β : Type} {p : α → Bool} {f : β → Bytes} {size : Nat} {xs : List α}
    {records : List (Option β)} (h : List.Forall₂ (fun x record =>
      record.map (fun r => (f r).length) = if p x then some size else none) xs records) :
    ((records.filterMap id).flatMap f).length = size * xs.countP p := by
  induction h with
  | nil => rfl
  | @cons x record xs records hx _ ih =>
    cases record with
    | none =>
      have hp : ¬p x = true := by
        intro hp
        simp [hp] at hx
      rw [List.filterMap_cons_none rfl, ih, List.countP_cons_of_neg hp]
    | some r =>
      have hp : p x = true := by
        by_contra hp
        simp [hp] at hx
      have hs : (f r).length = size := by simpa [hp] using hx
      rw [List.filterMap_cons_some (f := id) (b := r) rfl, List.flatMap_cons, List.length_append, ih, hs,
        List.countP_cons_of_pos hp, Nat.mul_add, Nat.mul_one, Nat.add_comm]

theorem exitBytes_ends (level : Level) (room : Room) : (exitBytes level.ids room).Ends
    fun bytes => bytes.length = 1 + 3 * room.exits.countP (leads level) := by
  refine (Ends.mapM fun e _ => exitRecord_ends level room e).bind fun records hr => ends_pure ?_
  rw [List.length_cons, ← List.flatMap_id, length_flatMap_of_forall₂ (f := id) hr, Nat.add_comm]

theorem plainParameters_ends (room : Room) (o : LevelObject) : (plainParameters room o).Ends fun _ => True := by
  unfold plainParameters
  split
  · exact ends_pure trivial
  · exact (returns_report _ ()).ends_bind (ends_pure trivial)

theorem keypadParameters_ends (room : Room) (o : LevelObject) (code : String) (p : UInt8 × UInt8) :
    (keypadParameters room o code p).Ends fun _ => True := by
  unfold keypadParameters
  split
  · exact (returns_report _ ()).ends_bind (ends_pure trivial)
  · split
    · exact ends_pure trivial
    · exact (returns_report _ ()).ends_bind (ends_pure trivial)

theorem breakerExpectation_ends (room : Room) (o : LevelObject) (text : String) (p1 : UInt8) :
    (breakerExpectation room o text p1).Ends fun _ => True := by
  unfold breakerExpectation
  split
  · exact (returns_report _ ()).ends_bind (ends_pure trivial)
  · split
    · exact ends_pure trivial
    · exact (returns_report _ ()).ends_bind (ends_pure trivial)

theorem parameters_ends (ids : Ids) (room : Room) (o : LevelObject) :
    (parameters ids room o).Ends fun _ => True := by
  unfold parameters
  refine (plainParameters_ends room o).bind fun plain _ => ?_
  dsimp only
  split
  · split
    · exact (resolveId_ends _ _ _ _).bind fun _ _ => ends_pure trivial
    · exact ends_pure trivial
  split
  · split
    · exact keypadParameters_ends room o _ _
    · exact ends_pure trivial
  split
  · cases o.props.get? "expect" with
    | some text =>
      split
      · simp only [map_eq_pure_bind, bind_assoc, pure_bind]
        refine (resolveId_ends _ _ _ _).bind fun _ _ => ?_
        exact (breakerExpectation_ends room o _ _).bind fun _ _ => ends_pure trivial
      · rw [pure_bind]
        exact (breakerExpectation_ends room o _ _).bind fun _ _ => ends_pure trivial
    | none =>
      split
      · simp only [map_eq_pure_bind, bind_assoc, pure_bind]
        exact (resolveId_ends _ _ _ _).bind fun _ _ => ends_pure trivial
      · exact ends_pure trivial
  · exact ends_pure trivial

theorem scriptOffset_ends (s : Stream) (kind : ScriptKind) (name : String) (line : Nat) :
    (scriptOffset s kind name line).Ends fun _ => True := by
  unfold scriptOffset
  split
  · exact ends_pure trivial
  · split
    · exact ends_pure trivial
    · exact (returns_report _ ()).ends_bind (ends_pure trivial)

theorem objectRecord_ends (ids : Ids) (conds acts : Stream) (room : Room) (o : LevelObject) :
    (objectRecord ids conds acts room o).Ends fun record =>
      record.map (fun r => r.bytes.length) = if objectTypes.has o.typeName then some objectRecordSize else none := by
  unfold objectRecord
  cases ht : objectTypes.get? o.typeName with
  | none =>
    refine (returns_report _ ()).ends_bind (ends_pure ?_)
    simp [Table.has, ht]
  | some typeCode =>
    dsimp only
    refine (parameters_ends ids room o).bind fun _ _ => ?_
    iterate 8 refine (scriptOffset_ends _ _ _ _).bind fun _ _ => ?_
    refine ends_pure ?_
    simp [Table.has, ht, ObjectRecord.bytes, objectRecordSize]

/-- The parts of a room lie where their sizes tell, if no stamps meet below its map. -/
theorem roomData_ends (h : ¬Collides level room) (offset : Nat) : (roomData level.ids conds acts level room offset).Ends
    fun data => data.1.entry = begins (partSizes level room) offset ∧
      offset + data.2.length = ending (partSizes level room) offset := by
  unfold roomData
  refine (mapBytes_ends h).bind fun map hmap => (exitBytes_ends level room).bind fun exits he => ?_
  refine (Ends.mapM fun o _ => objectRecord_ends level.ids conds acts room o).bind fun records hr => ends_pure ?_
  have hs : (spawnBytes room).length = 1 + 2 * room.spawns.length := by
    rw [spawnBytes, List.length_cons, Bytes.length_flatMap_const (n := 2) fun _ _ => rfl, Table.values, List.length_map]
    omega
  have ho : ((records.filterMap id).flatMap ObjectRecord.bytes).length =
      objectRecordSize * room.objects.countP fun o => objectTypes.has o.typeName :=
    length_flatMap_of_forall₂ hr
  simp only [RoomLayout.entry, partSizes, begins, ending, hmap, hs, he, List.length_append, List.length_cons,
    ho, true_and]
  omega

theorem roomData_breaksOff {offset : Nat} : (roomData level.ids conds acts level room offset).BreaksOff b ↔
    b = .belowMap ∧ Collides level room := by
  unfold roomData
  rw [breaksOff_bind_left, mapBytes_breaksOff]
  intro map
  exact ((exitBytes_ends level room).bind fun exits _ =>
    (Ends.mapM fun o _ => objectRecord_ends level.ids conds acts room o).bind fun records _ =>
      ends_pure trivial (P := fun _ => True)).not_breaksOff b

theorem roomsData_ends {rooms : List Room} (h : ∀ room ∈ rooms, ¬Collides level room) (offset : Nat) :
    (roomsData level.ids conds acts level rooms offset).Ends fun data =>
      data.1.flatMap RoomLayout.entry = begins (rooms.flatMap (partSizes level)) offset ∧
      offset + data.2.length = ending (rooms.flatMap (partSizes level)) offset := by
  induction rooms generalizing offset with
  | nil => exact ends_pure ⟨rfl, rfl⟩
  | cons room rest ih =>
    rw [List.forall_mem_cons] at h
    unfold roomsData
    refine (roomData_ends h.1 offset).bind fun ⟨layout, bytes⟩ hr => ?_
    refine (ih h.2 _).bind fun ⟨layouts, more⟩ hre => ends_pure ?_
    dsimp only at hr hre ⊢
    rw [List.flatMap_cons, List.flatMap_cons, begins_append, ending_append, List.length_append, ← Nat.add_assoc,
      hr.1, hre.1, hre.2, hr.2]
    exact ⟨rfl, rfl⟩

theorem roomsData_breaksOff {rooms : List Room} {offset : Nat} :
    (roomsData level.ids conds acts level rooms offset).BreaksOff b ↔
      b = .belowMap ∧ ∃ room ∈ rooms, Collides level room := by
  induction rooms generalizing offset with
  | nil => simp [roomsData]
  | cons room rest ih =>
    unfold roomsData
    simp only [List.mem_cons, exists_eq_or_imp]
    refine breaksOff_bind_or (fun _ => roomData_breaksOff) fun ⟨layout, bytes⟩ => ?_
    exact (breaksOff_bind_left fun _ => not_breaksOff_pure _ _).trans ih

/-! ### The whole blob -/

theorem exactWords_breaksOff {words : List Nat} : (exactWords words).BreaksOff b ↔
    b = .offsetTooLarge ∧ ∃ n ∈ words, 65536 ≤ n := by
  unfold exactWords
  split
  · rename_i hall
    simp only [List.all_eq_true, decide_eq_true_eq] at hall
    simp only [not_breaksOff_pure, false_iff, not_and, not_exists, Nat.not_le]
    exact fun _ => hall
  · rename_i hall
    simp only [List.all_eq_true, decide_eq_true_eq, not_forall, Nat.not_lt, exists_prop] at hall
    rw [breaksOff_breakOff, and_iff_left hall, eq_comm]

theorem startIds_ends (ids : Ids) (level : Level) : (startIds ids level).Ends fun _ => True := by
  refine (resolveId_ends _ _ _ _).bind fun room _ => ?_
  split
  · exact ends_pure trivial
  · exact (returns_report _ ()).ends_bind (ends_pure trivial)

theorem offsets_of_parts {condCode actCode roomBytes : Bytes} {layouts : List RoomLayout}
    (hc : condCode.length = ending (level.conds.values.map (Script.codeSize Condition.readLine)) 0)
    (ha : actCode.length = ending (level.acts.values.map (Script.codeSize Action.readLine)) 3)
    (he : layouts.flatMap RoomLayout.entry = begins (level.rooms.values.flatMap (partSizes level))
      (headerSize + level.rooms.length * directoryEntrySize))
    (hr : headerSize + level.rooms.length * directoryEntrySize + roomBytes.length =
      ending (level.rooms.values.flatMap (partSizes level)) (headerSize + level.rooms.length * directoryEntrySize)) :
    textOffsets (level.messages.values.map messageBytes) (headerSize + level.rooms.length * directoryEntrySize +
        roomBytes.length + condCode.length + actCode.length + 1 +
        2 * (level.messages.values.map messageBytes).length) ++ layouts.flatMap RoomLayout.entry = level.offsets := by
  have hs : (level.messages.values.map messageBytes).map List.length =
      level.messages.values.map fun text => text.toList.length + 1 := by
    rw [List.map_map]
    exact List.map_congr_left fun text _ => by simp [messageBytes]
  rw [textOffsets_eq_begins, hs, he, hr, hc, ha, ← ending_add, ← ending_add, List.length_map,
    Table.values, List.length_map]
  rfl

/-- Compiling a level breaks off exactly if stamps meet below the map of a room or else an offset does not fit into two
bytes. -/
theorem compile_breaksOff : (compile level).BreaksOff b ↔
    (b = .belowMap ∧ ∃ room ∈ level.rooms.values, Collides level room) ∨
    (b = .offsetTooLarge ∧ (∀ room ∈ level.rooms.values, ¬Collides level room) ∧ ∃ n ∈ level.offsets, 65536 ≤ n) := by
  unfold compile
  refine (conditionStream_ends level.ids level).breaksOff_bind fun conds hc => ?_
  refine (actionStream_ends level.ids level).breaksOff_bind fun acts ha => ?_
  by_cases hr : ∃ room ∈ level.rooms.values, Collides level room
  · have hb : (roomsData level.ids conds acts level level.rooms.values
        (headerSize + level.rooms.length * directoryEntrySize)).BreaksOff .belowMap :=
      roomsData_breaksOff.mpr ⟨rfl, hr⟩
    have hno : ¬∀ room ∈ level.rooms.values, ¬Collides level room := by simpa using hr
    rw [(hb.bind _).iff_eq, and_iff_left hr, or_iff_left fun h => hno h.2.1, eq_comm]
  · simp only [not_exists, not_and] at hr
    refine (roomsData_ends hr _).breaksOff_bind fun ⟨layouts, bytes⟩ ⟨he, hby⟩ => ?_
    dsimp only at he hby ⊢
    have hno : ¬∃ room ∈ level.rooms.values, Collides level room := by simpa using hr
    rw [← offsets_of_parts hc ha he hby, or_iff_right fun h => hno h.2, and_iff_right hr]
    -- Both lists of words break off in the same way, and nothing after them does.
    have hs : ∀ f : Nat × Nat → Compiled, ¬(startIds level.ids level >>= fun start => pure (f start)).BreaksOff b :=
      fun f => ((startIds_ends level.ids level).bind fun _ _ => ends_pure (P := fun _ => True) trivial).not_breaksOff b
    simp only [List.mem_append, or_and_right, exists_or]
    exact breaksOff_bind_or (fun _ => exactWords_breaksOff) fun words =>
      (breaksOff_bind_left fun directory => hs _).trans exactWords_breaksOff

theorem offsets_of_compile {compiled : Compiled} (h : (compile level).Returns compiled) :
    compiled.layout.messages ++ compiled.layout.rooms.flatMap RoomLayout.entry = level.offsets := by
  unfold compile at h
  obtain ⟨conds, hc, h⟩ := returns_bind.mp h
  obtain ⟨acts, ha, h⟩ := returns_bind.mp h
  obtain ⟨⟨layouts, bytes⟩, hr, h⟩ := returns_bind.mp h
  obtain ⟨words, -, h⟩ := returns_bind.mp h
  obtain ⟨directory, -, h⟩ := returns_bind.mp h
  obtain ⟨start, -, h⟩ := returns_bind.mp h
  obtain rfl := returns_pure.mp h
  have hno : ∀ room ∈ level.rooms.values, ¬Collides level room := fun room hro hco =>
    hr.not_breaksOff _ (roomsData_breaksOff.mpr ⟨rfl, room, hro, hco⟩)
  obtain ⟨he, hb⟩ := (roomsData_ends hno _).holds hr
  exact offsets_of_parts ((conditionStream_ends _ _).holds hc) ((actionStream_ends _ _).holds ha) he hb

end Level

end EscapeRoom
