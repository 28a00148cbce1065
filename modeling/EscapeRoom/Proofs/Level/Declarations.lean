import EscapeRoom.Proofs.Level.Built
import EscapeRoom.Proofs.Tileset.Agreement

/-!
# What a level keeps of its declarations

A script or a room is put aside while its lines are read, and becomes part of the level at the line that ends it. So it
gets lost without a word if no such line comes, if another room begins first, or if a second header begins the level
again. If none of this happens, a level that is read without an issue holds every script and every room that its file
begins, with all their lines.
-/

namespace EscapeRoom.Level

open Report

variable {part : Part} {q : Progress} {word : String}

/-- Lines are read without an issue, one after the other. -/
inductive Trace (s : Sources) : Progress → List Visit → Progress → Prop
  | nil (p : Progress) : Trace s p [] p
  | cons {p p' q : Progress} {line : Line} {visits : List Visit} : (readLine s p line).Yields p' →
      Trace s p' visits q → Trace s p (⟨p, line⟩ :: visits) q

theorem exists_trace {s : Sources} {lines : List Line} {p q : Progress} (h : (lines.foldlM (readLine s) p).Yields q) :
    ∃ visits, visits.map Visit.line = lines ∧ Trace s p visits q := by
  induction lines generalizing p with
  | nil =>
    rw [List.foldlM_nil, yields_pure] at h
    exact ⟨[], rfl, h ▸ .nil p⟩
  | cons line lines ih =>
    rw [List.foldlM_cons, yields_bind] at h
    obtain ⟨p', hp', h⟩ := h
    obtain ⟨visits, rfl, ht⟩ := ih h
    exact ⟨⟨p, line⟩ :: visits, rfl, .cons hp' ht⟩

namespace Visit

/-- The line stands where a level goes on, outside scripts and maps, and begins with the given word. -/
def isHeader (word : String) (v : Visit) : Bool :=
  v.before.script.isNone && v.before.part != some .map && v.before.level.isSome && v.head == word

def isEntry (part : Part) (v : Visit) : Bool :=
  v.before.script.isNone && v.before.part == some part && v.line.text != "END" && v.line.text != "ENDROOM" &&
    (part == .map || v.before.level.isSome && !beginnings.contains v.head)

end Visit

/-- The lines that begin with a word, each with the lines behind it. -/
def headers (word : String) : List Visit → List (Visit × List Visit)
  | [] => []
  | v :: visits => if v.isHeader word then (v, visits) :: headers word visits else headers word visits

/-- The lines of a script: all up to a line `END`, but for lines that end a room. -/
def scriptLines (visits : List Visit) : List (Nat × String) :=
  ((visits.takeWhile fun v => v.line.text != "END").filter fun v => v.line.text != "ENDROOM").map fun v =>
    (v.line.number, v.line.text)

def declaredScripts (kind : ScriptKind) (visits : List Visit) : Table String Script :=
  (headers kind.keyword visits).map fun h => (h.1.declaredName, ⟨h.1.declaredName, scriptLines h.2⟩)

/-- Which lines a room is made of. Spawn points, exits and objects are given by their names and lines. -/
structure Outline where
  id : String
  name : String
  line : Nat
  spawns : List (String × Nat) := []
  exits : List (String × Nat) := []
  objects : List (String × Nat) := []
  map : List (Nat × String) := []
  deriving Repr, DecidableEq

def outline (room : Room) : Outline where
  id := room.id
  name := room.name
  line := room.line
  spawns := room.spawns.map fun e => (e.1, e.2.line)
  exits := room.exits.map fun e => (e.edge, e.line)
  objects := room.objects.map fun o => (o.name, o.line)
  map := room.map

/-- The lines of a room's section, up to a line `ENDROOM`. -/
def sectionLines (part : Part) (visits : List Visit) : List Visit :=
  (visits.takeWhile fun v => v.line.text != "ENDROOM").filter (·.isEntry part)

def Outline.extend (o : Outline) (visits : List Visit) : Outline :=
  { o with
    spawns := o.spawns ++ (sectionLines .spawns visits).map fun v => (v.head, v.line.number)
    exits := o.exits ++ (sectionLines .exits visits).map fun v => (v.head, v.line.number)
    objects := o.objects ++ (sectionLines .objects visits).map fun v => (v.head, v.line.number)
    map := o.map ++ (sectionLines .map visits).map fun v => (v.line.number, v.line.text) }

def Visit.emptyRoom (v : Visit) : Outline where
  id := v.declaredName
  name := (Fields.scan v.line.text).getD "name" v.declaredName
  line := v.line.number

def declaredRooms (visits : List Visit) : Table String Outline :=
  (headers "ROOM" visits).map fun h => (h.1.declaredName, h.1.emptyRoom.extend h.2)

/-- The scripts and rooms of a level, and those that are put aside. -/
structure Ledger where
  begun : Bool
  scripts : ScriptKind → Table String Script
  rooms : Table String Outline
  script : Option (ScriptKind × Script)
  room : Option Outline

def Progress.ledger (p : Progress) : Ledger where
  begun := p.level.isSome
  scripts kind := p.level.elim [] fun level => level.scripts kind
  rooms := p.level.elim [] fun level => level.rooms.map fun e => (e.1, outline e.2)
  script := p.script
  room := p.room.map outline

/-- What a line does to the scripts and rooms of a level. -/
inductive Visit.Step (v : Visit) : Ledger → Prop
  | endScript {kind : ScriptKind} {script : Script} : v.line.text = "END" → v.before.script = some (kind, script) →
      v.Step { v.before.ledger with
        scripts := fun k => if k = kind then v.before.ledger.scripts k ++ [(script.name, script)]
          else v.before.ledger.scripts k
        script := none }
  | endPart : v.line.text = "END" → v.before.script = none → v.Step v.before.ledger
  | endRoom {o : Outline} : v.line.text = "ENDROOM" → v.before.ledger.room = some o →
      v.Step { v.before.ledger with rooms := v.before.ledger.rooms ++ [(o.id, o)], room := none }
  | scriptLine {kind : ScriptKind} {script : Script} : v.line.text ≠ "END" → v.line.text ≠ "ENDROOM" →
      v.before.script = some (kind, script) →
      v.Step { v.before.ledger with
        script := some (kind, { script with lines := script.lines ++ [(v.line.number, v.line.text)] }) }
  | firstHeader : v.before.script = none → v.before.part ≠ some .map → v.before.level = none → v.head = "LEVEL" →
      v.Step { v.before.ledger with begun := true }
  | laterHeader : v.isHeader "LEVEL" = true → v.Step { v.before.ledger with scripts := fun _ => [], rooms := [] }
  | script {kind : ScriptKind} : v.isHeader kind.keyword = true →
      v.declaredName ∉ (v.before.ledger.scripts kind).keys →
      v.Step { v.before.ledger with script := some (kind, ⟨v.declaredName, []⟩) }
  | room : v.isHeader "ROOM" = true → v.declaredName ∉ v.before.ledger.rooms.keys →
      v.Step { v.before.ledger with room := some v.emptyRoom }
  | other : v.before.script = none → v.line.text ≠ "END" → v.line.text ≠ "ENDROOM" →
      (∀ word ∈ ["LEVEL", "COND", "ACT", "ROOM"], v.isHeader word = false) →
      v.Step { v.before.ledger with room := v.before.ledger.room.map (·.extend [v]) }

/-- What is put aside has a name that is not taken. -/
structure Ledger.Fresh (l : Ledger) : Prop where
  script : ∀ kind script, l.script = some (kind, script) → l.begun = true ∧ script.name ∉ (l.scripts kind).keys
  room : ∀ o, l.room = some o → l.begun = true ∧ o.id ∉ l.rooms.keys

@[simp] theorem keyword_inj {kind kind' : ScriptKind} : kind.keyword = kind'.keyword ↔ kind = kind' := by
  cases kind <;> cases kind' <;> simp [ScriptKind.keyword]

theorem Visit.Step.fresh {v : Visit} {l : Ledger} (h : v.Step l) (hv : v.before.ledger.Fresh) : l.Fresh := by
  have hn : ∀ {word}, v.isHeader word = true → v.before.ledger.script = none ∧ v.before.ledger.begun = true := by
    intro word hh
    simp only [Visit.isHeader, Bool.and_eq_true] at hh
    exact ⟨Option.isNone_iff_eq_none.mp hh.1.1.1, hh.1.2⟩
  cases h with
  | endScript => exact ⟨by simp, hv.room⟩
  | endPart => exact hv
  | endRoom => exact ⟨hv.script, by simp⟩
  | scriptLine _ _ hs =>
    refine ⟨fun kind script h => ?_, hv.room⟩
    obtain ⟨rfl, rfl⟩ := Prod.mk.inj (Option.some.inj h)
    have hold := hv.script _ _ hs
    exact hold
  | firstHeader => exact ⟨fun k sc h => ⟨rfl, (hv.script k sc h).2⟩, fun o h => ⟨rfl, (hv.room o h).2⟩⟩
  | laterHeader hh =>
    exact ⟨fun k sc h => ⟨(hn hh).2, by simp [Table.keys]⟩, fun o h => ⟨(hn hh).2, by simp [Table.keys]⟩⟩
  | script hh hna =>
    refine ⟨fun kind script h => ?_, hv.room⟩
    obtain ⟨rfl, rfl⟩ := Prod.mk.inj (Option.some.inj h)
    exact ⟨(hn hh).2, hna⟩
  | room hh hna =>
    refine ⟨hv.script, fun o h => ?_⟩
    obtain rfl := Option.some.inj h
    exact ⟨(hn hh).2, hna⟩
  | other =>
    refine ⟨hv.script, fun o h => ?_⟩
    obtain ⟨o', ho', rfl⟩ := Option.map_eq_some_iff.mp h
    exact hv.room o' ho'

/-! What each kind of line does -/

variable {s : Sources} {v : Visit} {p p' : Progress} {line : Line} {level : Level} {room room' : Room}

theorem extend_of_not_entry (h : ∀ part, v.isEntry part = false) (o : Outline) : o.extend [v] = o := by
  have hn : ∀ part, sectionLines part [v] = [] := by
    intro part
    rw [sectionLines, List.takeWhile_cons]
    split <;> simp [h part]
  simp [Outline.extend, hn]

theorem isEntry_eq_false (h : v.before.part ≠ some part) : v.isEntry part = false := by
  simp [Visit.isEntry, h]

theorem isEntry_of_beginning (hmap : v.before.part ≠ some .map) (h : v.head ∈ Visit.beginnings)
    (part : Part) : v.isEntry part = false := by
  by_cases hp : v.before.part = some part
  · have hne : part ≠ .map := fun he => hmap (he ▸ hp)
    simp [Visit.isEntry, hne, h]
  · exact isEntry_eq_false hp

def Outline.add (o : Outline) (part : Part) (v : Visit) : Outline :=
  match part with
  | .spawns => { o with spawns := o.spawns ++ [(v.head, v.line.number)] }
  | .exits => { o with exits := o.exits ++ [(v.head, v.line.number)] }
  | .objects => { o with objects := o.objects ++ [(v.head, v.line.number)] }
  | .map => { o with map := o.map ++ [(v.line.number, v.line.text)] }
  | _ => o

theorem extend_of_entry (h : v.isEntry part = true) (o : Outline) : o.extend [v] = o.add part v := by
  have hen := h
  simp only [Visit.isEntry, Bool.and_eq_true, beq_iff_eq, bne_iff_ne] at hen
  have hp := hen.1.1.1.2
  have hl : ∀ part', sectionLines part' [v] = if part' = part then [v] else [] := by
    intro part'
    rw [sectionLines, List.takeWhile_cons, if_pos (by simpa using hen.1.2)]
    split
    · rename_i he
      simp [he, h]
    · rename_i hne
      have ho : v.isEntry part' = false := isEntry_eq_false fun he => hne (Option.some.inj (he.symm.trans hp))
      simp [ho]
  cases part <;> simp [Outline.extend, Outline.add, hl]

theorem Visit.InRoom.outline_eq (h : v.InRoom room part room') : outline room' = (outline room).add part v := by
  cases h with
  | spawn hl hnew =>
    rw [Table.put_of_not_mem hnew]
    simp [outline, Outline.add, hl]
  | exit he hl => simp [outline, Outline.add, he, hl]
  | object hn hl => simp [outline, Outline.add, hn, hl]

theorem ledger_withLevel {level' : Level} (h : p.level = some level) (hs : ∀ kind, level'.scripts kind = level.scripts kind)
    (hr : level'.rooms = level.rooms) : ({ p with level := some level' } : Progress).ledger = p.ledger := by
  simp [Progress.ledger, h, hr, funext hs]

theorem Visit.InSection.ledger_eq (h : v.InSection level part p') (hl : v.before.level = some level) :
    p'.ledger = { v.before.ledger with room := v.before.ledger.room.map (·.add part v) } := by
  cases h with
  | tile =>
    have hl' := ledger_withLevel (p := { v.before with tilesSeen := true }) hl (fun kind => by cases kind <;> rfl) rfl
    exact hl'.trans (by simp [Outline.add]; rfl)
  | name hp hn =>
    have hadd : ∀ o : Outline, o.add part v = o := by
      intro o
      cases part <;> first | rfl | simp at hp
    rw [ledger_withLevel hl hn.scripts hn.rooms]
    simp [hadd]
  | room hr hs => simp [Progress.ledger, hr, hs.outline_eq]
  | noRoom _ hr => simp [Progress.ledger, hr]

theorem isHeader_iff : v.isHeader word = true ↔
    v.before.script = none ∧ v.before.part ≠ some .map ∧ v.before.level.isSome = true ∧ v.head = word := by
  simp [Visit.isHeader, and_assoc]

theorem Visit.GoesOn.isHeader (hg : v.GoesOn) (hl : v.before.level = some level)
    (h : v.head = word) : v.isHeader word = true :=
  isHeader_iff.mpr ⟨hg.script, hg.part, by simp [hl], h⟩

theorem step_readHeader (hg : v.GoesOn) (hh : v.head = "LEVEL")
    (h : (readHeader s v.line v.before).Yields p') : v.Step p'.ledger := by
  obtain ⟨level', hb, hl', hs', hr'⟩ := readHeader_yields h
  have hl : p'.ledger = { v.before.ledger with begun := true, scripts := fun _ => [], rooms := [] } := by
    simp [Progress.ledger, hl', hb.scripts, hb.rooms, hs', hr']
  rw [hl]
  cases hle : v.before.level with
  | none =>
    have he : v.before.ledger = { v.before.ledger with scripts := fun _ => [], rooms := [] } := by
      simp [Progress.ledger, hle]
    have hst := Visit.Step.firstHeader hg.script hg.part hle hh
    dsimp only at hst
    rw [he] at hst
    exact hst
  | some level =>
    have hb : v.before.ledger.begun = true := by simp [Progress.ledger, hle]
    have hst := Visit.Step.laterHeader (hg.isHeader hle hh)
    dsimp only at hst
    rw [hb] at hst
    exact hst

theorem ledger_closeScript {kind : ScriptKind} {script : Script} (hl : p.level = some level)
    (hn : script.name ∉ (level.scripts kind).keys) :
    Progress.ledger { closeScript p level kind script with part := none } = { p.ledger with
      scripts := fun k => if k = kind then p.ledger.scripts k ++ [(script.name, script)] else p.ledger.scripts k
      script := none } := by
  unfold closeScript
  cases kind with
  | cond =>
    have hput : level.conds.put script.name script = _ := Table.put_of_not_mem hn script
    simp only [Progress.ledger, hl, hput, Option.elim_some, Option.isSome_some]
    congr 1
    funext k
    cases k <;> simp [scripts]
  | act =>
    have hput : level.acts.put script.name script = _ := Table.put_of_not_mem hn script
    simp only [Progress.ledger, hl, hput, Option.elim_some, Option.isSome_some]
    congr 1
    funext k
    cases k <;> simp [scripts]

/-- A line that begins no script, no room and no level extends the room by itself. -/
theorem step_of_not_header {f : Outline → Outline} (hs : v.before.script = none)
    (hend : v.line.text ≠ "END") (hre : v.line.text ≠ "ENDROOM")
    (hh : ∀ word ∈ ["LEVEL", "COND", "ACT", "ROOM"], v.isHeader word = false) (hf : ∀ o, Outline.extend o [v] = f o)
    (h : p'.ledger = { v.before.ledger with room := v.before.ledger.room.map f }) : v.Step p'.ledger := by
  rw [h, ← funext hf]
  exact .other hs hend hre hh

theorem isHeader_of_not_mem {words : List String} (h : v.head ∉ words) :
    ∀ word ∈ words, v.isHeader word = false := by
  intro word hw
  rw [Bool.eq_false_iff]
  intro hh
  exact h ((isHeader_iff.mp hh).2.2.2 ▸ hw)

theorem Visit.Does.step (h : v.Does s p') (hf : v.before.ledger.Fresh) : v.Step p'.ledger := by
  cases h with
  | @endScript kind script level hend hs hl =>
    have hsc : v.before.ledger.scripts kind = level.scripts kind := by simp [Progress.ledger, hl]
    rw [ledger_closeScript hl (hsc ▸ (hf.script kind script hs).2)]
    exact .endScript hend hs
  | endPart hend hor =>
    refine .endPart hend (hor.elim id fun hl => ?_)
    by_contra hne
    obtain ⟨⟨kind, script⟩, hs⟩ := Option.ne_none_iff_exists'.mp hne
    have hb := (hf.script kind script hs).1
    simp [Progress.ledger, hl] at hb
  | @endRoom level room hend hl hr =>
    have hp : v.before.ledger.room = some (outline room) := by simp [Progress.ledger, hr]
    have hro : v.before.ledger.rooms.keys = level.rooms.keys := by simp [Progress.ledger, hl, Table.keys]
    have hid : room.id ∉ level.rooms.keys := hro ▸ (hf.room _ hp).2
    have hs : ∀ kind, scripts { level with rooms := level.rooms ++ [(room.id, room)] } kind = level.scripts kind :=
      fun kind => by cases kind <;> rfl
    have hst := Visit.Step.endRoom hend hp
    simpa [Progress.ledger, hl, Table.put_of_not_mem hid, outline, hs] using hst
  | scriptLine hend hre hs => exact .scriptLine hend hre hs
  | mapRow hs hend hre hmap hr =>
    have he : v.isEntry .map = true := by simp [Visit.isEntry, hs, hmap, hend, hre]
    refine step_of_not_header hs hend hre (by simp [Visit.isHeader, hmap]) (extend_of_entry he) ?_
    simp [Progress.ledger, hr, Outline.add, outline]
  | header hg hh h => exact step_readHeader hg hh h
  | ignored hg hh hl =>
    have hen : ∀ part, v.isEntry part = false := by
      intro part
      by_cases hp : v.before.part = some part
      · have hne : part ≠ .map := fun he => hg.part (he ▸ hp)
        simp [Visit.isEntry, hl, hne]
      · exact isEntry_eq_false hp
    exact step_of_not_header hg.script hg.noEnd hg.noRoomEnd (by simp [Visit.isHeader, hl]) (extend_of_not_entry hen)
      (by simp)
  | part hg _ hh =>
    exact step_of_not_header hg.script hg.noEnd hg.noRoomEnd (isHeader_of_not_mem hh.2)
      (extend_of_not_entry (isEntry_of_beginning hg.part hh.1)) (by simp; rfl)
  | @script level kind hg hl hh hnew =>
    have hs : v.before.ledger.scripts kind = level.scripts kind := by simp [Progress.ledger, hl]
    exact .script (hg.isHeader hl hh) (hs ▸ hnew)
  | @room level hg hl hh hnew =>
    have hr : v.before.ledger.rooms.keys = level.rooms.keys := by simp [Progress.ledger, hl, Table.keys]
    exact .room (hg.isHeader hl hh) (hr ▸ hnew)
  | @entry level part _ hg hl hh hp hs =>
    have he : v.isEntry part = true := by simp [Visit.isEntry, hp, hl, hg.script, hg.noEnd, hg.noRoomEnd, hh]
    have hsub : ["LEVEL", "COND", "ACT", "ROOM"] ⊆ Visit.beginnings := by decide
    have hno : v.head ∉ ["LEVEL", "COND", "ACT", "ROOM"] := fun hw => hh (hsub hw)
    exact step_of_not_header hg.script hg.noEnd hg.noRoomEnd (isHeader_of_not_mem hno) (extend_of_entry he)
      (hs.ledger_eq hl)

theorem step_readLine (hf : p.ledger.Fresh) (h : (readLine s p line).Yields p') : Visit.Step ⟨p, line⟩ p'.ledger :=
  (does_of_readLine h).step hf

/-! What whole files do -/

/-- A line makes something that was declared get lost: a room begins inside another one, or a header begins the level
again after it has got scripts or rooms. -/
def Visit.Drops (v : Visit) : Prop :=
  v.isHeader "ROOM" = true ∧ v.before.room.isSome = true ∨
  v.isHeader "LEVEL" = true ∧ ((∃ kind, v.before.ledger.scripts kind ≠ []) ∨ v.before.ledger.rooms ≠ [])

/-- The script that is put aside, with the lines that are still to come. -/
def Ledger.openScript (l : Ledger) (kind : ScriptKind) (visits : List Visit) : Table String Script :=
  match l.script with
  | none => []
  | some (k, script) =>
    if k = kind then [(script.name, { script with lines := script.lines ++ scriptLines visits })] else []

/-- The room that is put aside, with the lines that are still to come. -/
def Ledger.openRoom (l : Ledger) (visits : List Visit) : Table String Outline :=
  (l.room.map fun o => (o.id, o.extend visits)).toList

variable {visits : List Visit} {l : Ledger}

theorem head_of_end (h : v.line.text = "END" ∨ v.line.text = "ENDROOM") : v.head = "END" ∨ v.head = "ENDROOM" := by
  rcases h with h | h
  · left
    rw [Visit.head, h, words_end.1]
    rfl
  · right
    rw [Visit.head, h, words_end.2]
    rfl

theorem isHeader_of_end (h : v.line.text = "END" ∨ v.line.text = "ENDROOM")
    (hw : word ∈ Visit.beginnings) : v.isHeader word = false := by
  rw [Bool.eq_false_iff]
  intro hh
  have hhe := (isHeader_iff.mp hh).2.2.2
  subst hhe
  rcases head_of_end h with h | h <;> rw [h] at hw <;> revert hw <;> decide

theorem scriptLines_of_end (h : v.line.text = "END") : scriptLines (v :: visits) = [] := by
  simp [scriptLines, h]

theorem scriptLines_of_roomEnd (h : v.line.text = "ENDROOM") : scriptLines (v :: visits) = scriptLines visits := by
  simp [scriptLines, h]

theorem scriptLines_cons (hend : v.line.text ≠ "END") (hre : v.line.text ≠ "ENDROOM") :
    scriptLines (v :: visits) = (v.line.number, v.line.text) :: scriptLines visits := by
  simp [scriptLines, hend, hre]

theorem extend_of_roomEnd (h : v.line.text = "ENDROOM") (o : Outline) : o.extend (v :: visits) = o := by
  simp [Outline.extend, sectionLines, h]

theorem extend_cons (h : v.line.text ≠ "ENDROOM") (o : Outline) (visits : List Visit) :
    o.extend (v :: visits) = (o.extend [v]).extend visits := by
  have hl : ∀ part, sectionLines part (v :: visits) = sectionLines part [v] ++ sectionLines part visits := by
    intro part
    simp [sectionLines, h, List.filter_cons]
    split <;> simp
  simp [Outline.extend, hl]

/-- A line that is no line of a section leaves the room that is put aside as it is. -/
theorem openRoom_cons (hend : v.line.text ≠ "ENDROOM") (h : ∀ part, v.isEntry part = false) :
    l.openRoom (v :: visits) = l.openRoom visits := by
  unfold Ledger.openRoom
  congr 2
  funext o
  rw [extend_cons hend, extend_of_not_entry h]

theorem declaredScripts_cons {kind : ScriptKind} (h : v.isHeader kind.keyword = false) :
    declaredScripts kind (v :: visits) = declaredScripts kind visits := by
  simp [declaredScripts, headers, h]

theorem declaredRooms_cons (h : v.isHeader "ROOM" = false) : declaredRooms (v :: visits) = declaredRooms visits := by
  simp [declaredRooms, headers, h]

theorem isHeader_of_script (h : v.before.script ≠ none) (word : String) : v.isHeader word = false := by
  simp [Visit.isHeader, h]

theorem isHeader_of_ne {word word' : String} (h : v.isHeader word = true) (hne : word ≠ word') :
    v.isHeader word' = false := by
  rw [Bool.eq_false_iff]
  intro h'
  exact hne ((isHeader_iff.mp h).2.2.2.symm.trans (isHeader_iff.mp h').2.2.2)

theorem isEntry_of_header (h : v.isHeader word = true) (hw : word ∈ Visit.beginnings) (part : Part) :
    v.isEntry part = false := by
  obtain ⟨-, hmap, -, rfl⟩ := isHeader_iff.mp h
  exact isEntry_of_beginning hmap hw part

theorem text_of_head (h : v.head ∈ Visit.beginnings) : v.line.text ≠ "ENDROOM" := by
  intro hend
  rcases head_of_end (.inr hend) with he | he <;> rw [he] at h <;> revert h <;> decide

/-- A line that begins something else leaves the room that is put aside as it is. -/
theorem openRoom_of_header (h : v.isHeader word = true) (hw : word ∈ Visit.beginnings) :
    l.openRoom (v :: visits) = l.openRoom visits :=
  openRoom_cons (text_of_head ((isHeader_iff.mp h).2.2.2.symm ▸ hw)) (isEntry_of_header h hw)

theorem keyword_mem (kind : ScriptKind) : kind.keyword ∈ Visit.beginnings := by
  cases kind <;> decide

/-- The scripts of a level, the one that is put aside and those that are still to come are the same before and after a
line, unless the line drops something. -/
theorem Visit.Step.scripts (h : v.Step l) (hd : ¬v.Drops) (kind : ScriptKind) :
    l.scripts kind ++ l.openScript kind visits ++ declaredScripts kind visits =
      v.before.ledger.scripts kind ++ v.before.ledger.openScript kind (v :: visits) ++
        declaredScripts kind (v :: visits) := by
  cases h with
  | @endScript k script hend hs =>
    have ho : v.before.ledger.script = some (k, script) := hs
    rw [declaredScripts_cons (isHeader_of_script (by simp [hs]) _)]
    by_cases hk : kind = k
    · simp [Ledger.openScript, ho, hk, scriptLines_of_end hend]
    · simp [Ledger.openScript, ho, hk, Ne.symm hk]
  | endPart hend hs =>
    have ho : v.before.ledger.script = none := hs
    rw [declaredScripts_cons (isHeader_of_end (.inl hend) (keyword_mem kind))]
    simp [Ledger.openScript, ho]
  | endRoom hend =>
    rw [declaredScripts_cons (isHeader_of_end (.inr hend) (keyword_mem kind))]
    simp [Ledger.openScript, scriptLines_of_roomEnd hend]
  | @scriptLine k script hend hre hs =>
    have ho : v.before.ledger.script = some (k, script) := hs
    rw [declaredScripts_cons (isHeader_of_script (by simp [hs]) _)]
    simp [Ledger.openScript, ho, scriptLines_cons hend hre]
  | firstHeader hs hmap hl hh =>
    have ho : v.before.ledger.script = none := hs
    rw [declaredScripts_cons (by simp [Visit.isHeader, hl])]
    simp [Ledger.openScript, ho]
  | laterHeader hhe =>
    have ho : v.before.ledger.script = none := (isHeader_iff.mp hhe).1
    have hn : v.before.ledger.scripts kind = [] := by
      by_contra hne
      exact hd (.inr ⟨hhe, .inl ⟨kind, hne⟩⟩)
    rw [declaredScripts_cons (isHeader_of_ne hhe (by cases kind <;> decide))]
    simp [Ledger.openScript, ho, hn]
  | @script k hhe hna =>
    have ho : v.before.ledger.script = none := (isHeader_iff.mp hhe).1
    by_cases hk : k = kind
    · subst hk
      simp [Ledger.openScript, ho, declaredScripts, headers, hhe]
    · rw [declaredScripts_cons (isHeader_of_ne hhe (by simpa using hk))]
      simp [Ledger.openScript, ho, hk]
  | room hhe =>
    have ho : v.before.ledger.script = none := (isHeader_iff.mp hhe).1
    rw [declaredScripts_cons (isHeader_of_ne hhe (by cases kind <;> decide))]
    simp [Ledger.openScript, ho]
  | other hs _ _ hn =>
    have ho : v.before.ledger.script = none := hs
    rw [declaredScripts_cons (hn _ (by cases kind <;> decide))]
    simp [Ledger.openScript, ho]

theorem Visit.Step.rooms (h : v.Step l) (hd : ¬v.Drops) :
    l.rooms ++ l.openRoom visits ++ declaredRooms visits =
      v.before.ledger.rooms ++ v.before.ledger.openRoom (v :: visits) ++ declaredRooms (v :: visits) := by
  have hr : "ROOM" ∈ Visit.beginnings := by decide
  have hend : v.line.text = "END" → v.line.text ≠ "ENDROOM" ∧ ∀ part, v.isEntry part = false := by
    intro hend
    exact ⟨by rw [hend]; decide, fun part => by simp [Visit.isEntry, hend]⟩
  cases h with
  | endScript ht hs =>
    rw [declaredRooms_cons (isHeader_of_end (.inl ht) hr), openRoom_cons (hend ht).1 (hend ht).2]
    rfl
  | endPart ht =>
    rw [declaredRooms_cons (isHeader_of_end (.inl ht) hr), openRoom_cons (hend ht).1 (hend ht).2]
  | endRoom ht ho =>
    rw [declaredRooms_cons (isHeader_of_end (.inr ht) hr)]
    simp [Ledger.openRoom, ho, extend_of_roomEnd ht]
  | scriptLine _ hre hs =>
    rw [declaredRooms_cons (isHeader_of_script (by simp [hs]) _),
      openRoom_cons hre fun part => by simp [Visit.isEntry, hs]]
    rfl
  | firstHeader hs hmap hl hh =>
    have hb : v.head ∈ Visit.beginnings := by rw [hh]; decide
    rw [declaredRooms_cons (by simp [Visit.isHeader, hl]),
      openRoom_cons (text_of_head hb) (isEntry_of_beginning hmap hb)]
    rfl
  | laterHeader hhe =>
    have hn : v.before.ledger.rooms = [] := by
      by_contra hne
      exact hd (.inr ⟨hhe, .inr hne⟩)
    rw [declaredRooms_cons (isHeader_of_ne hhe (by decide)), openRoom_of_header hhe (by decide), hn]
    rfl
  | @script k hhe hna =>
    rw [declaredRooms_cons (isHeader_of_ne hhe (by cases k <;> decide)), openRoom_of_header hhe (keyword_mem k)]
    rfl
  | room hhe =>
    have hn : v.before.ledger.room = none := by
      cases hop : v.before.room with
      | none => simp [Progress.ledger, hop]
      | some room => exact absurd (.inl ⟨hhe, by simp [hop]⟩) hd
    simp [Ledger.openRoom, hn, declaredRooms, headers, hhe, Visit.emptyRoom, Outline.extend]
  | other hs hend hre hn =>
    rw [declaredRooms_cons (hn _ (by decide))]
    cases hop : v.before.ledger.room with
    | none => simp [Ledger.openRoom, hop]
    | some o =>
      simp only [Ledger.openRoom, hop, Option.map_some]
      rw [extend_cons hre o visits]
      rfl

/-- Without losses, a level has in the end all scripts and rooms that were put aside or begun. -/
theorem Trace.kept (h : Trace s p visits q) (hf : p.ledger.Fresh) (hsc : q.script = none)
    (hro : q.room = none) (hd : ∀ v ∈ visits, ¬v.Drops) : (∀ kind, q.ledger.scripts kind =
      p.ledger.scripts kind ++ p.ledger.openScript kind visits ++ declaredScripts kind visits) ∧
    q.ledger.rooms = p.ledger.rooms ++ p.ledger.openRoom visits ++ declaredRooms visits := by
  induction h with
  | nil p =>
    have hs : p.ledger.script = none := hsc
    have hr : p.ledger.room = none := by simp [Progress.ledger, hro]
    simp [Ledger.openScript, Ledger.openRoom, hs, hr, declaredScripts, declaredRooms, headers]
  | cons hl _ ih =>
    rw [List.forall_mem_cons] at hd
    have hst := step_readLine hf hl
    obtain ⟨hsr, hrm⟩ := ih (hst.fresh hf) hsc hro hd.2
    exact ⟨fun kind => (hsr kind).trans (hst.scripts hd.1 kind), hrm.trans (hst.rooms hd.1)⟩

/-- How many scripts and rooms there are so far, with those that are put aside. -/
def Ledger.count (l : Ledger) : Nat :=
  (l.scripts .cond).length + (l.scripts .act).length + l.rooms.length + l.script.isSome.toNat + l.room.isSome.toNat

def headerCount (visits : List Visit) : Nat :=
  (headers "COND" visits).length + (headers "ACT" visits).length + (headers "ROOM" visits).length

theorem headerCount_cons : headerCount (v :: visits) = headerCount visits + (v.isHeader "COND").toNat +
    (v.isHeader "ACT").toNat + (v.isHeader "ROOM").toNat := by
  have hl : ∀ word, (headers word (v :: visits)).length =
      (headers word visits).length + (v.isHeader word).toNat := by
    intro word
    rw [headers]
    cases v.isHeader word <;> simp
  unfold headerCount
  rw [hl, hl, hl]
  omega

theorem not_drops (hr : v.isHeader "ROOM" = false) (hl : v.isHeader "LEVEL" = false) : ¬v.Drops := by
  simp [Visit.Drops, hr, hl]

/-- A line adds as many scripts and rooms as it begins, unless it drops something. -/
theorem Visit.Step.count_le (h : v.Step l) (visits : List Visit) :
    l.count + headerCount visits ≤ v.before.ledger.count + headerCount (v :: visits) ∧
    (v.Drops → l.count + headerCount visits < v.before.ledger.count + headerCount (v :: visits)) := by
  rw [headerCount_cons]
  cases h with
  | @endScript k script hend hs =>
    have hop : v.before.ledger.script = some (k, script) := hs
    have hh := isHeader_of_script (v := v) (by simp [hs])
    refine ⟨?_, fun hdr => absurd hdr (not_drops (hh _) (hh _))⟩
    cases k <;> simp [Ledger.count, hop, hh] <;> omega
  | endPart hend hs =>
    have hh : ∀ word ∈ Visit.beginnings, v.isHeader word = false := fun word => isHeader_of_end (.inl hend)
    exact ⟨by omega, fun hdr => absurd hdr (not_drops (hh _ (by decide)) (hh _ (by decide)))⟩
  | endRoom hend ho =>
    have hh : ∀ word ∈ Visit.beginnings, v.isHeader word = false := fun word => isHeader_of_end (.inr hend)
    refine ⟨?_, fun hdr => absurd hdr (not_drops (hh _ (by decide)) (hh _ (by decide)))⟩
    simp [Ledger.count, ho]
    omega
  | @scriptLine k script hend hre hs =>
    have hop : v.before.ledger.script = some (k, script) := hs
    have hh := isHeader_of_script (v := v) (by simp [hs])
    refine ⟨?_, fun hdr => absurd hdr (not_drops (hh _) (hh _))⟩
    simp [Ledger.count, hop]
    omega
  | firstHeader hs hmap hl hhe =>
    have hh : ∀ word, v.isHeader word = false := fun word => by simp [Visit.isHeader, hl]
    refine ⟨?_, fun hdr => absurd hdr (not_drops (hh _) (hh _))⟩
    simp only [Ledger.count]
    omega
  | laterHeader hh =>
    have hr : v.isHeader "ROOM" = false := isHeader_of_ne hh (by decide)
    refine ⟨?_, ?_⟩
    · simp [Ledger.count]
      omega
    · rintro (⟨h, -⟩ | ⟨-, hso⟩)
      · rw [hr] at h
        cases h
      · have hpos : 0 < (v.before.ledger.scripts .cond).length + (v.before.ledger.scripts .act).length +
            v.before.ledger.rooms.length := by
          rcases hso with ⟨kind, hne⟩ | hne
          · have := List.length_pos_iff.mpr hne
            cases kind <;> omega
          · have := List.length_pos_iff.mpr hne
            omega
        simp only [Ledger.count, List.length_nil]
        omega
  | @script k hh hn =>
    have hop : v.before.ledger.script = none := (isHeader_iff.mp hh).1
    have hr : v.isHeader "ROOM" = false := isHeader_of_ne hh (by cases k <;> decide)
    have hl : v.isHeader "LEVEL" = false := isHeader_of_ne hh (by cases k <;> decide)
    refine ⟨?_, fun hdr => absurd hdr (not_drops hr hl)⟩
    cases k with
    | cond =>
      have hc : v.isHeader "COND" = true := hh
      simp [Ledger.count, hop, hc]
      omega
    | act =>
      have hact : v.isHeader "ACT" = true := hh
      simp [Ledger.count, hop, hact]
      omega
  | room hh hn =>
    have hl : v.isHeader "LEVEL" = false := isHeader_of_ne hh (by decide)
    refine ⟨?_, ?_⟩
    · simp [Ledger.count, hh]
      omega
    · rintro (⟨-, hop⟩ | ⟨h, -⟩)
      · have hso : v.before.ledger.room.isSome = true := by simpa [Progress.ledger] using hop
        simp [Ledger.count, hh, hso]
        omega
      · rw [hl] at h
        cases h
  | other hs _ _ hno =>
    refine ⟨?_, fun hdr => absurd hdr (not_drops (hno _ (by decide)) (hno _ (by decide)))⟩
    simp only [Ledger.count, Option.isSome_map]
    omega

theorem Trace.count_le (h : Trace s p visits q) (hf : p.ledger.Fresh) :
    q.ledger.count ≤ p.ledger.count + headerCount visits ∧
    ((∃ v ∈ visits, v.Drops) → q.ledger.count < p.ledger.count + headerCount visits) := by
  induction h with
  | nil p => simp [headerCount, headers]
  | @cons p p' q line visits hl _ ih =>
    have hs := step_readLine hf hl
    obtain ⟨hle, hlt⟩ := hs.count_le visits
    obtain ⟨ihle, ihlt⟩ := ih (hs.fresh hf)
    dsimp only at hle hlt
    refine ⟨by omega, ?_⟩
    rintro ⟨v, hv, hdr⟩
    rcases List.mem_cons.mp hv with rfl | hv
    · have := hlt hdr
      omega
    · have := ihlt ⟨v, hv, hdr⟩
      omega

/-- A level holds every script and every room that its file begins, with all their lines. -/
structure KeepsAll (level : Level) (visits : List Visit) : Prop where
  scripts : ∀ kind, level.scripts kind = declaredScripts kind visits
  rooms : level.rooms.map (fun e => (e.1, outline e.2)) = declaredRooms visits

/-- Every script and every room ends before its file does, and no line drops what was declared. -/
structure Lossless (visits : List Visit) (q : Progress) : Prop where
  script : q.script = none
  room : q.room = none
  lines : ∀ v ∈ visits, ¬v.Drops

theorem fresh_nil : Ledger.Fresh (Progress.ledger {}) :=
  ⟨by simp [Progress.ledger], by simp [Progress.ledger]⟩

theorem Trace.keepsAll_iff (h : Trace s {} visits q) (hlv : q.level = some level) :
    KeepsAll level visits ↔ Lossless visits q := by
  have hs : ∀ kind, q.ledger.scripts kind = level.scripts kind := by simp [Progress.ledger, hlv]
  have hr : q.ledger.rooms = level.rooms.map fun e => (e.1, outline e.2) := by simp [Progress.ledger, hlv]
  constructor
  · intro hk
    obtain ⟨hle, hlt⟩ := h.count_le fresh_nil
    have hst : (Progress.ledger {}).count = 0 := rfl
    have hc : q.ledger.count = headerCount visits + q.ledger.script.isSome.toNat + q.ledger.room.isSome.toNat := by
      unfold Ledger.count headerCount
      rw [hs, hs, hr, hk.scripts, hk.scripts, hk.rooms]
      simp [declaredScripts, declaredRooms, ScriptKind.keyword]
    refine ⟨?_, ?_, fun v hv hdr => ?_⟩
    · have hn : q.ledger.script.isSome.toNat = 0 := by omega
      simpa [Progress.ledger] using hn
    · have hn : q.ledger.room.isSome.toNat = 0 := by omega
      simpa [Progress.ledger] using hn
    · have := hlt ⟨v, hv, hdr⟩
      omega
  · intro hl
    obtain ⟨hke, hkr⟩ := h.kept fresh_nil hl.script hl.room hl.lines
    refine ⟨fun kind => ?_, ?_⟩
    · rw [← hs, hke]
      simp [Progress.ledger, Ledger.openScript]
    · rw [← hr, hkr]
      simp [Progress.ledger, Ledger.openRoom]

/-- A level that is read without an issue holds everything that its file declares exactly if every script and every room
is ended, no room begins inside another one, and no header begins the level again. -/
theorem keepsAll_iff_lossless {text : String} (h : (read s text).Yields level) :
    ∃ visits q found, visits.map Visit.line = sourceLines text ∧ Trace s {} visits q ∧ q.level = some found ∧
      level = addAlways { found with tiles := level.tiles } ∧ (KeepsAll found visits ↔ Lossless visits q) := by
  rw [read, Report.yields_bind] at h
  obtain ⟨q, hq, hfinish⟩ := h
  obtain ⟨visits, hvisits, htrace⟩ := exists_trace hq
  obtain ⟨found, hfound, hlevel⟩ := finish_yields hfinish
  exact ⟨visits, q, found, hvisits, htrace, hfound, hlevel, htrace.keepsAll_iff hfound⟩

def alone : Sources :=
  ⟨"a.lvl", fun _ => false, fun _ => .error (.file .missing)⟩

def endedRoom : String :=
  "LEVEL w=1 h=1 start=A:B\nTILES\n. 0\nEND\nACT C\nX\nEND\nROOM A\nMAP\n.\nENDROOM"

/-- The same with a script and a room that do not end. -/
def openRoom : String :=
  "LEVEL w=1 h=1 start=A:B\nTILES\n. 0\nEND\nROOM A\nMAP\n.\nEND\nACT C\nX"

theorem evaluate_rooms :
    ((sourceLines endedRoom).foldlM (readLine alone) {}).endsWith (fun q => q.tilesSeen && q.level.any fun level =>
      level.rooms.keys == ["A"] && level.acts.keys == ["C"]) = true ∧
    ((sourceLines openRoom).foldlM (readLine alone) {}).endsWith (fun q => q.tilesSeen && q.level.any fun level =>
      level.rooms.isEmpty && level.acts.isEmpty && q.script.isSome && q.room.isSome) = true := by
  decide +kernel

theorem read_yields {text : String} (h : ((sourceLines text).foldlM (readLine s) {}).Yields q)
    (ht : q.tilesSeen = true) (hl : q.level = some level) : (read s text).Yields (addAlways level) := by
  rw [read, yields_bind]
  refine ⟨q, h, ?_⟩
  rw [finish, hl]
  simp [ht]

theorem keepsAll_iff_lossless_ended : ∃ level, (read alone endedRoom).Yields level ∧
    level.rooms.keys = ["A"] ∧ level.acts.keys = ["C"] ∧
    ∃ visits q found, visits.map Visit.line = sourceLines endedRoom ∧ Trace alone {} visits q ∧ q.level = some found ∧
      level = addAlways { found with tiles := level.tiles } ∧ (KeepsAll found visits ↔ Lossless visits q) := by
  obtain ⟨q, hq, hcheck⟩ := Report.exists_yields_of_endsWith evaluate_rooms.1
  simp only [Bool.and_eq_true, Option.any_eq_true, beq_iff_eq] at hcheck
  obtain ⟨htiles, found, hfound, hrooms, hacts⟩ := hcheck
  have hread := read_yields hq htiles hfound
  refine ⟨addAlways found, hread, ?_, ?_, keepsAll_iff_lossless hread⟩
  · rw [addAlways_eq]
    exact hrooms
  · rw [addAlways_eq]
    exact hacts

/-- A script and a room that do not end get lost without an issue. -/
theorem open_room_lost : ∃ level, (read alone openRoom).Yields level ∧ level.rooms = [] ∧ level.acts = [] ∧
    ∃ visits q found, visits.map Visit.line = sourceLines openRoom ∧ Trace alone {} visits q ∧ q.level = some found ∧
      level = addAlways found ∧ ¬KeepsAll found visits := by
  obtain ⟨q, hq, hcheck⟩ := Report.exists_yields_of_endsWith evaluate_rooms.2
  simp only [Bool.and_eq_true, Option.any_eq_true, List.isEmpty_iff] at hcheck
  obtain ⟨htiles, found, hfound, ⟨⟨hrooms, hacts⟩, hscript⟩, -⟩ := hcheck
  obtain ⟨visits, hvisits, htrace⟩ := exists_trace hq
  refine ⟨addAlways found, read_yields hq htiles hfound, ?_, ?_, visits, q, found, hvisits, htrace, hfound, rfl, ?_⟩
  · rw [addAlways_eq]
    exact hrooms
  · rw [addAlways_eq]
    exact hacts
  · rw [htrace.keepsAll_iff hfound]
    intro hlossless
    rw [hlossless.script] at hscript
    cases hscript

end EscapeRoom.Level
