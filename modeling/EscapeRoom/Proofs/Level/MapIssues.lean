import EscapeRoom.Proofs.Level.Layout
import EscapeRoom.Proofs.Level.Stamps
import EscapeRoom.Proofs.Notes

/-!
# Issues of one room's map

A level is compiled with the issues of all its parts in one list. Those about the map of one room are the issues
of compiling that map by itself, and there are none exactly if the map can be cut into the blocks of its stamps.
The map's bytes stand in the blob at the offset in the room's directory entry, whatever else is wrong with the level.
-/

namespace EscapeRoom

open Report

namespace Level

def Cause.mapOf? : Cause → Option String
  | .mapHeight room _ _ => some room
  | .mapWidth room _ _ _ => some room
  | .stampIsTile room _ => some room
  | .stampOutside room _ _ _ => some room
  | .stampBroken room _ _ _ _ _ => some room
  | .stampOverlap room _ _ _ => some room
  | .mapChar room _ => some room
  | .mapUnresolved room _ _ => some room
  | _ => none

/-- A computation that ends with a value and has nothing to say about maps. -/
def OffMap {α : Type} (m : Compiling α) : Prop :=
  m.Confined (fun i => i.cause.mapOf? = none) fun _ => False

theorem offMap_pure {α : Type} (a : α) : OffMap (pure a) :=
  confined_pure a

theorem offMap_report {i : Issue} (h : i.cause.mapOf? = none) : OffMap (Report.report i) :=
  confined_report.mpr h

theorem OffMap.bind {α β : Type} {m : Compiling α} {f : α → Compiling β} (hm : OffMap m)
    (hf : ∀ a, OffMap (f a)) : OffMap (m >>= f) :=
  Report.Confined.bind hm hf

theorem offMap_report_pure {α : Type} {i : Issue} {a : α} (h : i.cause.mapOf? = none) :
    OffMap (do Report.report i; pure a) :=
  (offMap_report h).bind fun _ => offMap_pure a

/-! ### Scripts -/

theorem offMap_resolveId (table : Table String Nat) (kind : IdKind) (name : String) (line : Nat) :
    OffMap (resolveId table kind name line) := by
  unfold resolveId
  split
  · exact offMap_pure _
  · exact offMap_report_pure rfl

theorem offMap_byteValue (text : String) {cause : Cause} (h : cause.mapOf? = none) (line column : Nat) :
    OffMap (byteValue text cause line column) := by
  unfold byteValue
  split
  · exact offMap_pure _
  · exact offMap_report_pure h

end Level

open Level

theorem Condition.offMap_compile (ids : Ids) (line : Nat) (raw : String) (t : Condition) :
    OffMap (t.compile ids line raw) := by
  cases t with
  | always => exact offMap_pure _
  | flagSet | flagClear | has => exact (offMap_resolveId _ _ _ _).bind fun _ => offMap_pure _
  | varEquals =>
    exact (offMap_resolveId _ _ _ _).bind fun _ => (offMap_byteValue _ rfl _ _).bind fun _ => offMap_pure _

theorem Action.offMap_compile (ids : Ids) (line : Nat) (raw : String) (t : Action) :
    OffMap (t.compile ids line raw) := by
  cases t with
  | showMessage | setFlag | clearFlag | give | take => exact (offMap_resolveId _ _ _ _).bind fun _ => offMap_pure _
  | setVar =>
    exact (offMap_resolveId _ _ _ _).bind fun _ => (offMap_byteValue _ rfl _ _).bind fun _ => offMap_pure _
  | playSound => exact (offMap_byteValue _ rfl _ _).bind fun _ => offMap_pure _
  | transition room spawn =>
    refine (offMap_resolveId _ _ _ _).bind fun _ => ?_
    split
    · exact offMap_pure _
    · exact offMap_report_pure rfl

namespace ScriptLine

variable {α : Type}

def OffMap : ScriptLine α → Prop
  | .fault cause _ => cause.mapOf? = none
  | _ => True

theorem offMap_unary {make : String → α} {kind : ScriptKind} {op : String} {operand : Operand} {column : Nat}
    (operands : List String) : (unary make (.fault (.operandMissing kind op operand) column) operands).OffMap := by
  cases operands with
  | nil => exact rfl
  | cons => trivial

theorem offMap_binary {make : String → String → α} {kind : ScriptKind} {op : String} {operand : Operand}
    {column : Nat} (operands : List String) :
    (binary make (.fault (.operandMissing kind op operand) column) operands).OffMap := by
  rcases operands with _ | ⟨a, _ | ⟨b, rest⟩⟩
  · exact rfl
  · exact rfl
  · trivial

theorem offMap_ite {p : Prop} [Decidable p] {l l' : ScriptLine α} (h : l.OffMap) (h' : l'.OffMap) :
    (if p then l else l').OffMap := by
  split
  · exact h
  · exact h'

end ScriptLine

open ScriptLine in
theorem Condition.offMap_readLine (raw : String) : (Condition.readLine raw).OffMap := by
  unfold readLine
  cases Text.words raw with
  | nil => trivial
  | cons head operands =>
    exact offMap_ite trivial <| offMap_ite trivial <| offMap_ite (offMap_unary _) <|
      offMap_ite (offMap_unary _) <| offMap_ite (offMap_unary _) <| offMap_ite (offMap_binary _) rfl

open ScriptLine in
theorem Action.offMap_readLine (raw : String) : (Action.readLine raw).OffMap := by
  unfold readLine
  cases Text.words raw with
  | nil => trivial
  | cons head operands =>
    exact offMap_ite trivial <| offMap_ite (offMap_unary _) <| offMap_ite (offMap_unary _) <|
      offMap_ite (offMap_unary _) <| offMap_ite (offMap_unary _) <| offMap_ite (offMap_unary _) <|
      offMap_ite (offMap_binary _) <| offMap_ite (offMap_unary _) <| offMap_ite (offMap_binary _) rfl

theorem Script.offMap_compileLines {α : Type} {readLine : String → ScriptLine α}
    {compile : Nat → String → α → Compiling Instruction} (hr : ∀ raw, (readLine raw).OffMap)
    (hc : ∀ line raw t, OffMap (compile line raw t)) (lines : List (Nat × String)) :
    OffMap (compileLines readLine compile lines) := by
  induction lines with
  | nil => exact offMap_pure _
  | cons line rest ih =>
    obtain ⟨line, raw⟩ := line
    have hraw := hr raw
    unfold compileLines
    cases hl : readLine raw with
    | blank => exact ih
    | stop => exact offMap_pure _
    | fault cause column =>
      rw [hl] at hraw
      exact (offMap_report (i := { cause, line, column }) hraw).bind fun _ => ih
    | step t => exact (hc line raw t).bind fun _ => ih.bind fun _ => offMap_pure _

namespace Level

theorem offMap_conditionStream (ids : Ids) (level : Level) : OffMap (conditionStream ids level) :=
  confined_foldlM fun _ _ _ =>
    OffMap.bind (Script.offMap_compileLines Condition.offMap_readLine (Condition.offMap_compile ids) _)
      fun _ => offMap_pure _

theorem offMap_actionStream (ids : Ids) (level : Level) : OffMap (actionStream ids level) :=
  confined_foldlM fun _ _ _ =>
    OffMap.bind (Script.offMap_compileLines Action.offMap_readLine (Action.offMap_compile ids) _)
      fun _ => offMap_pure _

/-! ### Exits and objects -/

theorem offMap_scriptOffset (s : Stream) (kind : ScriptKind) (name : String) (line : Nat) :
    OffMap (scriptOffset s kind name line) := by
  unfold scriptOffset
  split
  · exact offMap_pure _
  · split
    · exact offMap_pure _
    · exact offMap_report_pure rfl

theorem offMap_exitRecord (ids : Ids) (room : Room) (e : Exit) : OffMap (exitRecord ids room e) := by
  unfold exitRecord
  dsimp only
  split
  · exact offMap_report_pure rfl
  · split
    · exact offMap_report_pure rfl
    · split
      · exact offMap_report_pure rfl
      · exact offMap_pure _

theorem offMap_exitBytes (ids : Ids) (room : Room) : OffMap (exitBytes ids room) :=
  OffMap.bind (confined_mapM fun e _ => offMap_exitRecord ids room e) fun _ => offMap_pure _

theorem offMap_plainParameters (room : Room) (o : LevelObject) : OffMap (plainParameters room o) := by
  unfold plainParameters
  split
  · exact offMap_pure _
  · exact offMap_report_pure rfl

theorem offMap_keypadParameters (room : Room) (o : LevelObject) (code : String) (p : UInt8 × UInt8) :
    OffMap (keypadParameters room o code p) := by
  unfold keypadParameters
  split
  · exact offMap_report_pure rfl
  · split
    · exact offMap_pure _
    · exact offMap_report_pure rfl

theorem offMap_breakerExpectation (room : Room) (o : LevelObject) (text : String) (p1 : UInt8) :
    OffMap (breakerExpectation room o text p1) := by
  unfold breakerExpectation
  split
  · exact offMap_report_pure rfl
  · split
    · exact offMap_pure _
    · exact offMap_report_pure rfl

theorem offMap_parameters (ids : Ids) (room : Room) (o : LevelObject) : OffMap (parameters ids room o) := by
  refine (offMap_plainParameters room o).bind fun p => ?_
  dsimp only
  split
  · split
    · exact (offMap_resolveId _ _ _ _).bind fun _ => offMap_pure _
    · exact offMap_pure _
  · split
    · split
      · exact offMap_keypadParameters _ _ _ _
      · exact offMap_pure _
    · split
      · split
        · refine OffMap.bind (((offMap_resolveId _ _ _ _).map _).map _) fun p0 => ?_
          split
          · exact (offMap_breakerExpectation _ _ _ _).bind fun _ => offMap_pure _
          · exact offMap_pure _
        · refine (offMap_pure p.1).bind fun p0 => ?_
          split
          · exact (offMap_breakerExpectation _ _ _ _).bind fun _ => offMap_pure _
          · exact offMap_pure _
      · exact offMap_pure _

theorem offMap_objectRecord (ids : Ids) (conds acts : Stream) (room : Room) (o : LevelObject) :
    OffMap (objectRecord ids conds acts room o) := by
  unfold objectRecord
  split
  · exact offMap_report_pure rfl
  · have hact : ∀ name, OffMap (scriptOffset acts .act name o.line) := fun name => offMap_scriptOffset _ _ _ _
    exact (offMap_parameters ids room o).bind fun p => (offMap_scriptOffset _ _ _ _).bind fun _ =>
      (hact _).bind fun _ => (hact _).bind fun _ => (hact _).bind fun _ => (hact _).bind fun _ =>
      (hact _).bind fun _ => (hact _).bind fun _ => (hact _).bind fun _ => offMap_pure _

theorem offMap_startIds (ids : Ids) (level : Level) : OffMap (startIds ids level) := by
  refine (offMap_resolveId _ _ _ _).bind fun room => ?_
  split
  · exact offMap_pure _
  · exact offMap_report_pure rfl

/-! ### Maps -/

section

variable {level : Level} {room : Room} {bytes : Bytes} {id : String} {offset : Nat} {rooms : List Room}

/-- A computation that has something to say only about one room's map, and breaks off only below a map. -/
def OnMap {α : Type} (id : String) (m : Compiling α) : Prop :=
  m.Confined (fun i => i.cause.mapOf? = some id) fun c => c = .belowMap

theorem OnMap.bind {α β : Type} {m : Compiling α} {f : α → Compiling β} (hm : OnMap id m)
    (hf : ∀ a, OnMap id (f a)) : OnMap id (m >>= f) :=
  Report.Confined.bind hm hf

theorem onMap_pure {α : Type} (a : α) : OnMap id (pure a) :=
  confined_pure a

theorem onMap_report_pure {α : Type} {i : Issue} {a : α} (h : i.cause.mapOf? = some id) :
    OnMap id (do Report.report i; pure a) :=
  Report.Confined.bind (confined_report.mpr h) fun _ => onMap_pure a

theorem onMap_fittingRows (level : Level) (room : Room) : OnMap room.id (fittingRows level room) := by
  refine OnMap.bind (confined_mapM fun e _ => ?_) fun _ => onMap_pure _
  dsimp only
  split
  · exact onMap_pure _
  · exact onMap_report_pure rfl

theorem onMap_checkBlock (room : Room) (rows : List MapRow) (key : String) (stamp : Stamp) (x y : Nat) :
    OnMap room.id (checkBlock room rows key stamp x y) := by
  refine confined_forM fun e _ => ?_
  dsimp only
  split
  · exact onMap_pure _
  · exact confined_reportIf _ rfl

theorem onMap_fillBlock (room : Room) (rows : List MapRow) (key : String) (stamp : Stamp) (x y : Nat)
    (canvas : Canvas) : OnMap room.id (fillBlock room rows key stamp x y canvas) := by
  refine confined_foldlM fun e _ c => ?_
  dsimp only
  split
  · exact onMap_pure _
  · exact onMap_report_pure rfl
  · exact confined_breakOff.mpr rfl

theorem onMap_placeStamp (level : Level) (room : Room) (rows : List MapRow) (row : MapRow) (key : String)
    (stamp : Stamp) (x y : Nat) (canvas : Canvas) :
    OnMap room.id (placeStamp level room rows row key stamp x y canvas) := by
  refine OnMap.bind (confined_reportIf _ rfl) fun _ => ?_
  split
  · exact (onMap_checkBlock _ _ _ _ _ _).bind fun _ => onMap_fillBlock _ _ _ _ _ _ _
  · exact onMap_report_pure rfl

theorem onMap_placeTile (level : Level) (room : Room) (row : MapRow) (key : String) (x y : Nat) (canvas : Canvas) :
    OnMap room.id (placeTile level room row key x y canvas) := by
  unfold placeTile
  split
  · exact onMap_pure _
  · exact onMap_report_pure rfl

theorem onMap_placeAt (level : Level) (room : Room) (rows : List MapRow) (canvas : Canvas) (x y : Nat) :
    OnMap room.id (placeAt level room rows canvas x y) := by
  unfold placeAt
  split
  · split
    · exact onMap_pure _
    · dsimp only
      split
      · exact onMap_placeStamp _ _ _ _ _ _ _ _ _
      · exact onMap_placeTile _ _ _ _ _ _ _
  · exact onMap_pure _

theorem onMap_resolvedAt (room : Room) (rows : List MapRow) (canvas : Canvas) (x y : Nat) :
    OnMap room.id (resolvedAt room rows canvas x y) := by
  unfold resolvedAt
  split
  · exact onMap_pure _
  · exact onMap_report_pure rfl

theorem onMap_mapBytes (level : Level) (room : Room) : OnMap room.id (mapBytes level room) :=
  OnMap.bind (confined_reportIf _ rfl) fun _ => (onMap_fittingRows level room).bind fun _ =>
    OnMap.bind (confined_foldlM fun _ _ _ => onMap_placeAt _ _ _ _ _ _) fun _ =>
      confined_mapM fun _ _ => onMap_resolvedAt _ _ _ _ _

/-! ### Rooms and levels -/

variable {ids : Ids} {conds acts : Stream} {P : Issue → Prop} {Q : Breakdown → Prop}

theorem confined_roomData (hoff : ∀ i : Issue, i.cause.mapOf? = none → P i)
    (hmap : (mapBytes level room).Confined P Q) (offset : Nat) :
    (roomData ids conds acts level room offset).Confined P Q := by
  have he : (exitBytes ids room).Confined P Q := (offMap_exitBytes ids room).imp hoff fun _ h => h.elim
  have ho : (room.objects.mapM (objectRecord ids conds acts room)).Confined P Q :=
    confined_mapM fun o _ => (offMap_objectRecord ids conds acts room o).imp hoff fun _ h => h.elim
  exact hmap.bind fun _ => he.bind fun _ => ho.bind fun _ => confined_pure _

theorem confined_roomsData (hoff : ∀ i : Issue, i.cause.mapOf? = none → P i)
    (hm : ∀ room ∈ rooms, (mapBytes level room).Confined P Q) (offset : Nat) :
    (roomsData ids conds acts level rooms offset).Confined P Q := by
  induction rooms generalizing offset with
  | nil => exact confined_pure _
  | cons room rooms ih =>
    rw [List.forall_mem_cons] at hm
    exact (confined_roomData hoff hm.1 offset).bind fun _ => (ih hm.2 _).bind fun _ => confined_pure _

theorem confined_exactWords (words : List Nat) : (exactWords words).Confined P fun _ => True := by
  unfold exactWords
  split
  · exact confined_pure _
  · exact confined_breakOff.mpr trivial

theorem confined_compile (hoff : ∀ i : Issue, i.cause.mapOf? = none → P i)
    (hm : ∀ room ∈ level.rooms.values, (mapBytes level room).Confined P fun _ => True) :
    level.compile.Confined P fun _ => True := by
  have hany : ∀ {α : Type} {m : Compiling α}, OffMap m → m.Confined P fun _ => True :=
    fun h => h.imp hoff fun _ _ => trivial
  exact (hany (offMap_conditionStream _ _)).bind fun _ => (hany (offMap_actionStream _ _)).bind fun _ =>
    (confined_roomsData hoff hm _).bind fun _ => (confined_exactWords _).bind fun _ =>
    (confined_exactWords _).bind fun _ => (hany (offMap_startIds _ _)).bind fun _ => confined_pure _

theorem mem_notes_roomsData {result : List RoomLayout × Bytes}
    (h : (roomsData ids conds acts level rooms offset).Returns result) (hr : room ∈ rooms) {i : Issue}
    (hi : i ∈ (mapBytes level room).notes) : i ∈ (roomsData ids conds acts level rooms offset).notes := by
  induction rooms generalizing offset result with
  | nil => simp at hr
  | cons first rooms ih =>
    unfold roomsData at h ⊢
    simp only [returns_bind] at h
    obtain ⟨found, hf, more, hm, _⟩ := h
    rw [mem_notes_bind]
    rcases List.mem_cons.mp hr with rfl | hr
    · exact .inl (mem_notes_bind.mpr (.inl hi))
    · exact .inr ⟨found, hf, mem_notes_bind.mpr (.inl (ih hm hr))⟩

theorem mapsStand_of_roomsData {blob : Bytes} {layouts : List RoomLayout}
    (h : (roomsData ids conds acts level rooms offset).Returns (layouts, bytes)) (hb : blob.HoldsAt offset bytes) :
    List.Forall₂ (fun room l => ∃ map, (mapBytes level room).Returns map ∧ blob.HoldsAt l.map map) rooms layouts := by
  induction rooms generalizing offset layouts bytes with
  | nil =>
    simp only [roomsData, returns_pure, Prod.mk.injEq] at h
    rw [← h.1]
    exact .nil
  | cons room rooms ih =>
    simp only [roomsData, returns_bind, returns_pure, Prod.mk.injEq] at h
    obtain ⟨⟨l, first⟩, hf, ⟨ls, more⟩, hm, rfl, rfl⟩ := h
    refine .cons ?_ (ih hm hb.right)
    simp only [roomData, returns_bind, returns_pure, Prod.mk.injEq] at hf
    obtain ⟨map, hmap, exits, _, records, _, rfl, rfl⟩ := hf
    exact ⟨map, hmap, hb.left.left.left.left⟩

theorem returns_maps_of_roomsData {layouts : List RoomLayout}
    (h : (roomsData ids conds acts level rooms offset).Returns (layouts, bytes)) :
    List.Forall₂ (fun room _ => ∃ map, (mapBytes level room).Returns map) rooms layouts :=
  (mapsStand_of_roomsData h ⟨List.replicate _ 0, [], rfl, List.length_replicate⟩).imp fun _ _ hl => hl.imp fun _ h => h.1

theorem exactWords_returns {words : List Nat} : (exactWords words).Returns bytes ↔
      (∀ n ∈ words, n < 65536) ∧ bytes = words.flatMap fun (n : Nat) => wordOf n := by
  rw [← exactWords_yields, yields_iff_notes, and_iff_left]
  unfold exactWords
  split <;> rfl

theorem map_holdsAt_of_compile {compiled : Compiled} (h : level.compile.Returns compiled) {r : Nat}
    (hr : level.rooms.values[r]? = some room) :
    ∃ (offset : Nat) (bytes : Bytes), offset < 65536 ∧ (mapBytes level room).Returns bytes ∧
      compiled.blob.HoldsAt (22 + 8 * r) (wordOf offset) ∧ compiled.blob.HoldsAt offset bytes := by
  simp only [compile, returns_bind, returns_pure, exactWords_returns] at h
  obtain ⟨conds, _, acts, _, ⟨layouts, roomBytes⟩, hro, _, ⟨_, rfl⟩, _, ⟨he, rfl⟩, start, _, hc⟩ := h
  have hco := (returns_maps_of_roomsData hro).length_eq
  obtain ⟨_, hdi, hp, _⟩ := holdsAt_parts (congrArg Compiled.blob hc).symm
  simp only [length_headerBytes, length_words, length_entries, ← hco, length_values] at hdi hp
  have hs : 22 + 2 * (4 * level.rooms.length) = headerSize + level.rooms.length * directoryEntrySize := by
    simp only [headerSize, directoryEntrySize]
    omega
  rw [hs] at hp
  obtain ⟨l, hl, map, hmap, hh⟩ := exists_getElem?_of_forall₂ (mapsStand_of_roomsData hro hp) hr
  rw [List.flatMap_assoc] at hdi
  have hen := hdi.record (n := 8) (fun (l : RoomLayout) _ => length_words l.entry) hl
  refine ⟨l.map, map, he _ ?_, hmap, hen.left, hh⟩
  exact List.mem_flatMap.mpr ⟨l, List.mem_of_getElem? hl, List.mem_cons_self⟩

/-- Whatever is wrong elsewhere, issues about a room's map are those of compiling the map by itself. -/
theorem quiet_iff_mapBytes_yields (hids : (level.rooms.values.map Room.id).Nodup) (hro : room ∈ level.rooms.values)
    (hb : ¬level.compile.BreaksOff .belowMap) :
    (∀ i ∈ level.compile.notes, i.cause.mapOf? ≠ some room.id) ↔ ∃ bytes, (mapBytes level room).Yields bytes := by
  constructor
  · intro hq
    obtain ⟨conds, hco⟩ := (offMap_conditionStream level.ids level).exists_returns
    obtain ⟨acts, ha⟩ := (offMap_actionStream level.ids level).exists_returns
    obtain ⟨⟨layouts, bytes⟩, hrm⟩ : ∃ result, (roomsData level.ids conds acts level level.rooms.values
        (headerSize + level.rooms.length * directoryEntrySize)).Returns result := by
      refine exists_returns_iff.mpr fun c hc => hb ?_
      have hf := (confined_roomsData (P := fun _ => True) (fun _ _ => trivial)
        (fun room _ => (onMap_mapBytes level room).imp (fun _ _ => trivial) fun _ h => h) _).faults c hc
      exact hco.breaksOff_bind.mpr (ha.breaksOff_bind.mpr ((hf ▸ hc).bind _))
    have hn : ∀ i ∈ (mapBytes level room).notes, i ∈ level.compile.notes := fun i hi =>
      mem_notes_bind.mpr (.inr ⟨conds, hco, mem_notes_bind.mpr (.inr ⟨acts, ha,
        mem_notes_bind.mpr (.inl (mem_notes_roomsData hrm hro hi))⟩)⟩)
    obtain ⟨r, hr⟩ := List.mem_iff_getElem?.mp hro
    obtain ⟨_, _, map, hmap⟩ := exists_getElem?_of_forall₂ (returns_maps_of_roomsData hrm) hr
    refine ⟨map, yields_iff_notes.mpr ⟨hmap, List.eq_nil_iff_forall_not_mem.mpr fun i hi => ?_⟩⟩
    exact hq i (hn i hi) ((onMap_mapBytes level room).notes i hi)
  · rintro ⟨bytes, hby⟩
    refine (confined_compile (fun i hi => by simp [hi]) fun other ho => ?_).notes
    by_cases hid : other.id = room.id
    · rw [List.inj_on_of_nodup_map hids ho hro hid]
      exact ⟨by simp [(yields_iff_notes.mp hby).2], fun _ _ => trivial⟩
    · refine (onMap_mapBytes level other).imp (fun i hi => ?_) fun _ _ => trivial
      rw [hi]
      exact fun he => hid (Option.some.inj he)

theorem getElem?_of_holdsAt {b part : Bytes} {o k : Nat} {x : UInt8} (h : b.HoldsAt o part)
    (hx : part[k]? = some x) : b[o + k]? = some x := by
  obtain ⟨before, after, rfl, rfl⟩ := h
  have hlt := (List.getElem?_eq_some_iff.mp hx).1
  rw [List.append_assoc, List.getElem?_append_right (Nat.le_add_right _ _), Nat.add_sub_cancel_left,
    List.getElem?_append_left hlt, hx]

end

/-- A room with three tables that touch and a curtain beside them. -/
def parlorRoom : Room where
  id := "parlor"
  name := "parlor"
  line := 10
  map := [(11, "TTTTC"), (12, "TTTTC"), (13, ".TT.C"), (14, ".TT##")]

def table : Stamp := ⟨"table", 2, 2, [300, 1, 2, 3], "T"⟩

/-- The other room of the level has an exit that leads nowhere and a map with a broken table. -/
def parlor : Level where
  name := "parlor"
  width := 5
  height := 4
  startRoom := "parlor"
  startSpawn := "door"
  line := 1
  tiles := [("#", 7), (".", 261)]
  stamps := [("T", table), ("C", ⟨"curtain", 1, 3, [8, 9, 10], "C"⟩)]
  rooms :=
    [("attic",
      { id := "attic", name := "attic", line := 20, exits := [⟨"D", "nowhere", "door", 21⟩]
        map := [(22, "TTT.."), (23, "TT..."), (24, "....."), (25, ".....")] }),
     ("parlor", parlorRoom)]

end Level

end EscapeRoom
