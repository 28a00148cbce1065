import EscapeRoom.Proofs.Level.Built
import EscapeRoom.Proofs.Level.Slots

/-!
# Numbers that fit their slots

Some kinds of slots hold their numbers in every level that is compiled without an issue, because the numbers
are checked, bounded by a table, or the positions of something that is. Counts, extents, coordinates, tile
ids and the values that scripts and parameters give can be any: what does not fit is lost, and there is no
issue.
-/

namespace EscapeRoom.Level

variable {kind : SlotKind}

structure Numberable (level : Level) : Prop where
  flags : level.flags.length ≤ 256
  vars : level.vars.length ≤ 256
  items : level.items.length ≤ 256
  messages : level.messages.length ≤ 256
  rooms : level.rooms.length ≤ 256
  spawns : ∀ room ∈ level.rooms.values, room.spawns.length ≤ 256

/-- When slots of a kind hold their numbers in every level that is compiled without an issue. -/
def SlotKind.Guarded (level : Level) (c : Compiled) : SlotKind → Prop
  | .mark | .address | .edge | .objectType | .verbs | .digits | .operation | .letter => True
  | .number => level.Numberable
  | .offset => level.messages ≠ [] ∨ c.blob.length ≤ 65536
  | .count | .extent | .tile | .coordinate | .value => False

/-- The slot holds its number, if that can be relied on. -/
def Slot.Kept (level : Level) (c : Compiled) (s : Slot) : Prop :=
  s.kind.Guarded level c → s.Exact

theorem Slot.exact_of_lt {n : Int} (h₀ : 0 ≤ n) (h : n < 256) : Exact ⟨kind, n⟩ := by
  refine ⟨h₀, Int.lt_of_lt_of_le h ?_⟩
  unfold SlotKind.size
  split <;> decide

theorem Slot.exact_natCast {n : Nat} (h : n < 256) : Exact ⟨kind, n⟩ :=
  exact_of_lt (Int.natCast_nonneg n) (Int.ofNat_lt.mpr h)

theorem Slot.exact_of_isWord (hk : kind.isWord = true) {n : Nat} (h : n < 65536) : Exact ⟨kind, n⟩ := by
  refine ⟨Int.natCast_nonneg n, ?_⟩
  rw [SlotKind.size, if_pos hk]
  exact Int.ofNat_lt.mpr h

section

variable {level : Level} {c : Compiled} {o : LevelObject} {slots : List Slot}

theorem kept_of_lt {kind : SlotKind} {n : Nat} (h : n < 256) : Slot.Kept level c ⟨kind, n⟩ :=
  fun _ => Slot.exact_natCast h

theorem kept_number {names : List String} {name : String} {i : Nat} (h : Numbered names name i)
    (hn : level.Numberable → names.length ≤ 256) : Slot.Kept level c ⟨.number, i⟩ := by
  intro hg
  exact Slot.exact_natCast (Nat.lt_of_lt_of_le h.lt_length (hn hg))

theorem IsPlace.kept {room spawn : String} {i j : Nat} (h : level.IsPlace room spawn i j) :
    Slot.Kept level c ⟨.number, i⟩ ∧ Slot.Kept level c ⟨.number, j⟩ := by
  constructor
  · intro hg
    exact Slot.exact_natCast (Nat.lt_of_lt_of_le h.room_lt hg.rooms)
  · intro hg
    obtain ⟨r, hr, hj⟩ := h.spawn_lt
    exact Slot.exact_natCast (Nat.lt_of_lt_of_le hj (hg.spawns r hr))

theorem ExitSlots.kept {e : Exit} (h : ExitSlots level e slots) : ∀ s ∈ slots, s.Kept level c := by
  obtain ⟨edge, room, spawn, he, rfl⟩ := h
  have hed := exitEdges_le he.1
  obtain ⟨hr, hsp⟩ := he.2.kept (c := c)
  simp only [List.forall_mem_cons]
  exact ⟨kept_of_lt (by omega), hr, hsp, by simp⟩

theorem kept_value (n : Int) : Slot.Kept level c ⟨.value, n⟩ :=
  False.elim

theorem not_given {type key : String} (h : o.typeName = type → o.props.get? key = none) :
    ¬(o.typeName = type ∧ o.props.has key = true) := by
  rintro ⟨ht, hkey⟩
  rw [Table.has, h ht] at hkey
  exact Bool.false_ne_true hkey

theorem FirstParameter.kept {n : Int} (h : FirstParameter level o n) : Slot.Kept level c ⟨firstKind o, n⟩ := by
  cases h with
  | item ht hit hi =>
    have hki : firstKind o = .number := by simp [firstKind, ht, Table.has, hit]
    rw [hki]
    exact kept_number hi Numberable.items
  | code _ _ _ h₀ h₁ => exact fun _ => Slot.exact_of_lt (by omega) (by omega)
  | var ht hvar hi =>
    have hki : firstKind o = .number := by simp [firstKind, ht, Table.has, hvar]
    rw [hki]
    exact kept_number hi Numberable.vars
  | plain hp hke hpa _ =>
    rw [firstKind, if_neg (not_given hp), if_neg (not_given hke), if_neg (not_given hpa)]
    exact kept_value n

theorem SecondParameter.kept {n : Int} (h : SecondParameter o n) : Slot.Kept level c ⟨secondKind o, n⟩ := by
  cases h with
  | code _ _ _ h₀ h₁ => exact fun _ => Slot.exact_of_lt (by omega) (by omega)
  | expect _ _ _ h₀ h₁ => exact fun _ => Slot.exact_of_lt (by omega) (by omega)
  | plain hke hp _ =>
    rw [secondKind, if_neg (not_given hke), if_neg (not_given hp)]
    exact kept_value n

theorem kept_instruction {op : Int} (h₀ : 0 ≤ op) (h : op < 256) {a b : Slot} (ha : a.Kept level c)
    (hb : b.Kept level c) : ∀ s ∈ [⟨.operation, op⟩, a, b], s.Kept level c := by
  simp only [List.forall_mem_cons]
  exact ⟨fun _ => Slot.exact_of_lt h₀ h, ha, hb, by simp⟩

theorem kept_noOperand : noOperand.Kept level c :=
  kept_of_lt (n := 0) (by decide)

theorem ConditionSlots.kept {t : Condition} (h : ConditionSlots level t slots) : ∀ s ∈ slots, s.Kept level c := by
  cases h with
  | always => exact kept_instruction (by decide) (by decide) kept_noOperand kept_noOperand
  | flagSet hi | flagClear hi =>
    exact kept_instruction (by decide) (by decide) (kept_number hi Numberable.flags) kept_noOperand
  | has hi =>
    exact kept_instruction (by decide) (by decide) (kept_number hi Numberable.items) kept_noOperand
  | varEquals hi hn =>
    exact kept_instruction (by decide) (by decide) (kept_number hi Numberable.vars) (kept_value _)

theorem ActionSlots.kept {t : Action} (h : ActionSlots level t slots) : ∀ s ∈ slots, s.Kept level c := by
  cases h with
  | showMessage hi =>
    refine kept_instruction (by decide) (by decide) (kept_number hi fun hn => ?_) kept_noOperand
    rw [Table.keys, List.length_map]
    exact hn.messages
  | setFlag hi | clearFlag hi =>
    exact kept_instruction (by decide) (by decide) (kept_number hi Numberable.flags) kept_noOperand
  | give hi | take hi =>
    exact kept_instruction (by decide) (by decide) (kept_number hi Numberable.items) kept_noOperand
  | setVar hi hn =>
    exact kept_instruction (by decide) (by decide) (kept_number hi Numberable.vars) (kept_value _)
  | playSound hn => exact kept_instruction (by decide) (by decide) (kept_value _) kept_noOperand
  | transition hp => exact kept_instruction (by decide) (by decide) hp.kept.1 hp.kept.2

theorem kept_stopSlots : ∀ s ∈ stopSlots, s.Kept level c :=
  kept_instruction (by decide) (by decide) kept_noOperand kept_noOperand

theorem ScriptSlots.kept {α : Type} {Said : List String → α → Prop} {Slots : α → List Slot → Prop}
    (hke : ∀ t part, Slots t part → ∀ s ∈ part, s.Kept level c) {live : List (Nat × String)}
    (h : ScriptSlots Said Slots live slots) : ∀ s ∈ slots, s.Kept level c := by
  induction h with
  | nil => exact kept_stopSlots
  | blank _ _ ih => exact ih
  | step _ hp _ ih => exact List.forall_mem_append.mpr ⟨hke _ _ hp, ih⟩

theorem kept_textSlots (text : String) : ∀ s ∈ textSlots text, s.Kept level c := by
  refine List.forall_mem_append.mpr ⟨?_, by simpa using kept_of_lt (n := 0) (by decide)⟩
  rw [List.forall_mem_map]
  intro ch _
  by_cases ha : ch.toNat < 128
  · rw [if_pos ha]
    exact kept_of_lt (by omega)
  · rw [if_neg ha]
    exact kept_of_lt (n := 63) (by decide)

theorem kept_countedSlots {parts : List (List Slot)}
    (h : ∀ part ∈ parts, ∀ s ∈ part, Slot.Kept level c s) : ∀ s ∈ countedSlots parts, s.Kept level c := by
  refine List.forall_mem_cons.mpr ⟨False.elim, ?_⟩
  rw [List.forall_mem_flatten]
  exact h

/-! Offsets are at most that of the message table, and behind it come the messages, whose addresses are
checked -/

section

variable (hs : Stands level c) {n : Nat} {slots : List Slot}
include hs

theorem kept_offset (h : n ≤ c.layout.messageTable) : Slot.Kept level c ⟨.offset, n⟩ := by
  rintro (hm | hb)
  · obtain ⟨⟨name, text⟩, rest, hc⟩ := List.exists_cons_of_ne_nil hm
    have hf : c.layout.messageTable + 1 + 2 * level.messages.length ∈ c.layout.messages := by
      rw [hs.messages_eq, hc]
      exact List.mem_cons_self
    have hlt := hs.messages_lt _ hf
    exact Slot.exact_of_isWord rfl (by omega)
  · have hend : c.layout.messageTable + 1 ≤ c.blob.length := hs.messageCount.length_le
    exact Slot.exact_of_isWord rfl (by omega)

variable (hk : level.Keyed)
include hk

theorem kept_conditionOffset {name : String} (h : Begins c.layout.conds name n) : Slot.Kept level c ⟨.offset, n⟩ := by
  refine kept_offset hs ?_
  unfold Begins at h
  split at h
  · omega
  · obtain ⟨code, _, hat⟩ := conditionCode_holdsAt hk.conds hs.conds h
    have hend := hat.length_le
    rw [hs.messageTable_eq, hs.actStream_eq]
    omega

theorem kept_actionOffset {name : String} (h : Begins c.layout.acts name n) : Slot.Kept level c ⟨.offset, n⟩ := by
  refine kept_offset hs ?_
  unfold Begins at h
  split at h
  · omega
  · obtain ⟨code, _, hat⟩ := actionCode_holdsAt hk.acts hs.acts h
    have hend := hat.length_le
    rw [hs.messageTable_eq]
    omega

theorem ObjectSlots.kept {o : LevelObject} (hv : o.verbs < 32)
    (h : ObjectSlots level c.layout.conds c.layout.acts o slots) : ∀ s ∈ slots, s.Kept level c := by
  obtain ⟨typeCode, cond, first, second, actions, ht, hf, hse, hc, ha, rfl⟩ := h
  have hco := objectTypes_le ht
  rw [List.forall_mem_append]
  constructor
  · simp only [List.forall_mem_cons]
    exact ⟨False.elim, False.elim, kept_of_lt (by omega),
      kept_of_lt (by omega), hf.kept, hse.kept, kept_conditionOffset hs hk hc, by simp⟩
  · rw [wordSlots, List.forall_mem_map]
    exact forall_mem_of_forall₂ ha fun _ _ _ h => kept_actionOffset hs hk h

theorem RoomSlots.kept {room : Room} (hr : room.Built)
    (h : RoomSlots level c.layout.conds c.layout.acts room slots) : ∀ s ∈ slots, s.Kept level c := by
  obtain ⟨ids, exits, objects, _, hex, hob, rfl⟩ := h
  simp only [List.forall_mem_append]
  refine ⟨⟨⟨?_, kept_countedSlots ?_⟩, kept_countedSlots ?_⟩, kept_countedSlots ?_⟩
  · rw [List.forall_mem_map]
    exact fun _ _ hg => hg.elim
  · rw [List.forall_mem_map]
    intro spawn _
    simp only [spawnSlots, List.forall_mem_cons]
    exact ⟨False.elim, False.elim, by simp⟩
  · exact forall_mem_of_forall₂ hex fun _ _ _ he => he.kept
  · exact forall_mem_of_forall₂ hob fun o ho _ hsl =>
      hsl.kept hs hk (verbs_lt_of_built hr o ho)

theorem LevelSlots.kept (hro : ∀ room ∈ level.rooms.values, room.Built)
    (h : level.LevelSlots c.layout slots) : ∀ s ∈ slots, s.Kept level c := by
  obtain ⟨room, spawn, rooms, conds, acts, hst, hrs, hcs, has, rfl⟩ := h
  have hh : ∀ s ∈ headerSlots level c.layout room spawn, s.Kept level c := by
    have hsm : ∀ {kind : SlotKind} {n : Nat}, n < 256 → Slot.Kept level c ⟨kind, n⟩ := kept_of_lt
    have hact := hs.actStream_eq
    have hta := hs.messageTable_eq
    simp only [headerSlots, List.forall_mem_cons]
    exact ⟨hsm (n := 76) (by decide), hsm (n := 86) (by decide), hsm (n := 76) (by decide),
      hsm (n := 49) (by decide), hsm (n := 1) (by decide), False.elim, False.elim, False.elim,
      False.elim, False.elim, False.elim, False.elim, hst.kept.1, hst.kept.2,
      hsm (n := 22) (by decide), kept_offset hs (by omega), kept_offset hs (by omega),
      kept_offset hs (Nat.le_refl _), by simp⟩
  have ha : ∀ words : List Nat, (∀ n ∈ words, n < 65536) →
      ∀ s ∈ wordSlots .address words, s.Kept level c := by
    intro words hw
    rw [wordSlots, List.forall_mem_map]
    exact fun n hn _ => Slot.exact_of_isWord rfl (hw n hn)
  simp only [List.forall_mem_append, List.forall_mem_cons, List.forall_mem_flatten]
  refine ⟨⟨⟨⟨⟨⟨⟨hh, ha _ hs.entries_lt⟩, ?_⟩, ?_⟩, kept_stopSlots⟩, ?_⟩,
    False.elim, ha _ hs.messages_lt⟩, ?_⟩
  · exact forall_mem_of_forall₂ hrs fun r hr _ hsl => hsl.kept hs hk (hro r hr)
  · exact forall_mem_of_forall₂ hcs fun _ _ _ hsl => hsl.kept fun _ _ ht => ht.kept
  · exact forall_mem_of_forall₂ has fun _ _ _ hsl => hsl.kept fun _ _ ht => ht.kept
  · intro slot hslo
    obtain ⟨text, _, hslo⟩ := List.mem_flatMap.mp hslo
    exact kept_textSlots text slot hslo

/-- A level that is compiled has a room, whose map shows its height and, if there are rows, its width. -/
theorem height_nonneg_of_stands :
    0 ≤ level.height ∧ (level.width < 0 → level.height = 0) := by
  obtain ⟨start, hst, _⟩ := hs.header
  obtain ⟨room, hr, _⟩ := startIds_yields hk hst
  obtain ⟨_, _, hsn⟩ := exists_getElem?_of_forall₂ hs.rooms (Table.getElem?_values hr)
  obtain ⟨bytes, hb, _⟩ := hsn.map
  obtain ⟨ids, hids, _⟩ := mapBytes_yields hb
  have hh := hids.height
  refine ⟨by omega, fun hw => ?_⟩
  cases hro : room.map with
  | nil => rw [← hh, hro]; rfl
  | cons row rows =>
    have hrow := hids.width row (by rw [hro]; exact List.mem_cons_self)
    omega

end

end

/-- The blob of a level that is read and compiled without an issue is made of the slots of the level. Those
for edges, object types, verbs, parts of codes, addresses and letters hold their numbers, those for the
positions of names do if there are at most 256 names of each kind, and those for offsets do if there is a
message or if the blob is not longer than a word can tell. -/
theorem exact_of_guarded {s : Sources} {level : Level} {c : Compiled}
    (hload : (load s).Yields (some level)) (hcompile : level.compile.Yields c) :
    ∃ slots, level.LevelSlots c.layout slots ∧ c.blob = Slot.encode slots ∧
      (∀ slot ∈ slots, Slot.read slot.bytes = slot.value % slot.kind.size) ∧
      (∀ slot ∈ slots, slot.kind.Guarded level c → slot.Exact ∧ Slot.read slot.bytes = slot.value) ∧
      0 ≤ level.height ∧ (level.width < 0 → level.height = 0) := by
  have hbuilt := built_of_load hload
  have hk := keyed_of_built hbuilt
  have hs := stands_of_compile hcompile
  obtain ⟨slots, hslots, hblob⟩ := blob_eq_encode hk hcompile
  refine ⟨slots, hslots, hblob, fun slot _ => slot.read_bytes, fun slot hslot hguarded => ?_, ?_⟩
  · have hexact := hslots.kept hs hk (rooms_built_of_built hbuilt) slot hslot hguarded
    exact ⟨hexact, slot.exact_iff_read_bytes.mp hexact⟩
  · exact height_nonneg_of_stands hs hk

/-- A room whose only spawn point lies far outside its map. -/
def outpost : Sources where
  path := "outpost.lvl"
  isFile := fun _ => false
  text := fun _ => .ok "LEVEL w=1 h=1 start=R:S
TILES
. 0
END
MESSAGES
M = \"!\"
END
ROOM R
SPAWNS
S 300,0
END
MAP
.
END
ENDROOM
"

def outpostLevel : Level :=
  { name := "UNNAMED", width := 1, height := 1, startRoom := "R", startSpawn := "S", line := 1
    tiles := [(".", 0)]
    messages := [("M", "!")]
    conds := [("ALWAYS", ⟨"ALWAYS", [(1, "TRUE")]⟩)]
    rooms := [("R", { id := "R", name := "R", line := 8, spawns := [("S", ⟨300, 0, 10⟩)]
                      map := [(13, ".")] })] }

set_option maxRecDepth 10000 in
theorem load_outpost : (load outpost).Yields (some outpostLevel) := by
  decide +kernel

theorem outpost_compiled : ∃ c, outpostLevel.compile.Yields c := by
  have hch : outpostLevel.compile.endsWith (fun _ => true) = true := by
    decide +kernel
  obtain ⟨c, hc, _⟩ := Report.exists_yields_of_endsWith hch
  exact ⟨c, hc⟩

theorem exact_of_guarded_outpost : ∃ c slots, (load outpost).Yields (some outpostLevel) ∧
    outpostLevel.compile.Yields c ∧ outpostLevel.LevelSlots c.layout slots ∧ c.blob = Slot.encode slots ∧
    (∀ slot ∈ slots, slot.kind = .offset → slot.Exact ∧ Slot.read slot.bytes = slot.value) := by
  obtain ⟨c, hc⟩ := outpost_compiled
  obtain ⟨slots, hslots, hblob, _, hexact, _⟩ := exact_of_guarded load_outpost hc
  refine ⟨c, slots, load_outpost, hc, hslots, hblob, fun slot hslot hkind => hexact slot hslot ?_⟩
  rw [hkind]
  exact .inl (by decide)

/-- The spawn point is stored at column 44, and there is no issue. -/
theorem not_exact_outpost : ∃ c, (load outpost).Yields (some outpostLevel) ∧
    outpostLevel.compile.Yields c ∧ ∀ slots, outpostLevel.LevelSlots c.layout slots →
      ∃ slot ∈ slots, slot.kind = .coordinate ∧ slot.value = 300 ∧ ¬slot.Exact ∧
        Slot.read slot.bytes = 44 := by
  obtain ⟨c, hc⟩ := outpost_compiled
  refine ⟨c, load_outpost, hc, ?_⟩
  rintro slots ⟨_, _, rooms, _, _, _, hrooms, _, _, rfl⟩
  obtain ⟨part, hpart, ids, exits, objects, _, _, _, rfl⟩ :=
    exists_getElem?_of_forall₂ (i := 0) hrooms rfl
  refine ⟨⟨.coordinate, 300⟩, ?_, rfl, rfl, fun hexact => absurd hexact.2 (by decide), by decide⟩
  have hspawn : Slot.mk .coordinate 300 ∈ countedSlots [[⟨.coordinate, 300⟩, ⟨.coordinate, 0⟩]] := by
    simp [countedSlots]
  have hroom := List.mem_flatten_of_mem (List.mem_of_getElem? hpart)
    (List.mem_append_left _ (List.mem_append_left _ (List.mem_append_right _ hspawn)))
  simp only [List.mem_append]
  exact .inl (.inl (.inl (.inl (.inl (.inr hroom)))))

end EscapeRoom.Level
