import EscapeRoom.Proofs.Game.Plays
import EscapeRoom.Proofs.Level.ScriptLines

/-!
# What conditions mean

A script of conditions holds in a state of the game if each of its lines does, up to a line `END`; a line
tests flags, items and variables by their names. The code of a script passes exactly if the script holds.
The offset that the record of an object stores for its script passes also if the script is the first one
of its level, whatever it says, because its offset is zero.
-/

namespace EscapeRoom

open Report

open Level

/-- Where the record of an object in the image of a level stores the offset of its condition. -/
def Level.Compiled.conditionOffset (c : Compiled) (room object : Nat) : UInt16 :=
  let objects := c.image.memory.word (22 + 8 * room + 6)
  c.image.memory.word (objects.toNat + 1 + 22 * object + 6)

namespace Condition

/-- Whether a test holds of the flags, items and variables that it names. -/
def Holds (level : Level) (g : Game) : Condition → Prop
  | .always => True
  | .flagSet flag => ∃ i, level.flags[i]? = some flag ∧ g.puzzle.bit i = true
  | .flagClear flag => ∃ i, level.flags[i]? = some flag ∧ g.puzzle.bit i = false
  | .has item => ∃ i, level.items[i]? = some item ∧ UInt8.ofNat i ∈ g.inventory.items
  | .varEquals var value => ∃ (i : Nat) (n : Int) (v : UInt8), level.vars[i]? = some var ∧
      Number.parseLiteral .marked value = .ok n ∧ g.puzzle.vars[i]? = some v ∧ (v.toNat : Int) = n % 256

/-- Whether a line holds. A line without words does. -/
def LineHolds (level : Level) (g : Game) (line : Nat × String) : Prop :=
  Text.words line.2 = [] ∨ ∃ t, Said (Text.words line.2) t ∧ t.Holds level g

theorem lineHolds_iff {level : Level} {g : Game} {number : Nat} {raw : String} {t : Condition}
    (h : Said (Text.words raw) t) : LineHolds level g (number, raw) ↔ t.Holds level g := by
  constructor
  · rintro (hb | ⟨t', ht', hh⟩)
    · rw [hb] at h
      cases h
    · have he := (readLine_of_said ht').symm.trans (readLine_of_said h)
      exact ScriptLine.step.inj he ▸ hh
  · exact fun hh => .inr ⟨t, h, hh⟩

end Condition

/-- Whether a script of conditions holds: all its lines do, up to a line `END`. -/
def Script.Holds (level : Level) (g : Game) (script : Script) : Prop :=
  ∀ line ∈ Script.liveLines script.lines, Condition.LineHolds level g line

section

variable {level : Level} {c : Compiled} {g : Game} (hd : level.Declared) (hs : Stands level c)
  (hp : g.Plays c) (hflags : level.flags.length ≤ 255) (hitems : level.items.length ≤ 255)
  (hvars : level.vars.length ≤ 64)
include hd hs hp hflags hitems hvars

theorem Condition.test_compile {line : Nat} {raw : String} {t : Condition} {i : Instruction}
    (h : (t.compile level.ids line raw).Yields i) :
    i.op ≠ 0 ∧ ∃ b, g.test i.op i.a i.b = some b ∧ (b = true ↔ t.Holds level g) := by
  cases t with
  | always =>
    rw [compile, yields_pure] at h
    subst h
    exact ⟨by decide, true, rfl, by simp [Holds]⟩
  | flagSet flag =>
    simp only [compile, yields_bind, yields_pure, ids, resolveId_number_yields hd.flags] at h
    obtain ⟨n, hn, rfl⟩ := h
    have hlt := index_lt hn
    refine ⟨by simp, g.puzzle.flag (byteOf n), rfl, ?_⟩
    rw [byteOf_natCast (by omega), hp.flag_eq hs hflags hlt]
    constructor
    · exact fun hbit => ⟨n, hn, hbit⟩
    · rintro ⟨j, hj, hbit⟩
      exact index_unique hd.flags hj hn ▸ hbit
  | flagClear flag =>
    simp only [compile, yields_bind, yields_pure, ids, resolveId_number_yields hd.flags] at h
    obtain ⟨n, hn, rfl⟩ := h
    have hlt := index_lt hn
    refine ⟨by simp, !g.puzzle.flag (byteOf n), rfl, ?_⟩
    rw [byteOf_natCast (by omega), hp.flag_eq hs hflags hlt, Bool.not_eq_true']
    constructor
    · exact fun hbit => ⟨n, hn, hbit⟩
    · rintro ⟨j, hj, hbit⟩
      exact index_unique hd.flags hj hn ▸ hbit
  | has item =>
    simp only [compile, yields_bind, yields_pure, ids, resolveId_number_yields hd.items] at h
    obtain ⟨n, hn, rfl⟩ := h
    have hlt := index_lt hn
    refine ⟨by simp, g.inventory.has (byteOf n), rfl, ?_⟩
    rw [byteOf_natCast (by omega), Inventory.has, List.contains_iff_mem]
    constructor
    · exact fun hmem => ⟨n, hn, hmem⟩
    · rintro ⟨j, hj, hmem⟩
      exact index_unique hd.items hj hn ▸ hmem
  | varEquals var value =>
    simp only [compile, yields_bind, yields_pure, ids, resolveId_number_yields hd.vars] at h
    obtain ⟨i, hi, b, hb, rfl⟩ := h
    obtain ⟨n, hn, rfl⟩ := byteValue_yields hb
    have hlt := index_lt hi
    have hvar := hp.var_eq hs hvars hlt
    refine ⟨by simp, g.puzzle.var (byteOf i) == byteOf n, rfl, ?_⟩
    rw [byteOf_natCast (by omega), beq_iff_eq, ← UInt8.toNat_inj]
    constructor
    · intro he
      exact ⟨i, n, _, hi, hn, hvar, by rw [he, coe_toNat_byteOf]⟩
    · rintro ⟨j, m, v, hj, hm, hv, he⟩
      rw [index_unique hd.vars hj hi, hvar, Option.some.injEq] at hv
      rw [hn, Except.ok.injEq] at hm
      have hby := coe_toNat_byteOf n
      rw [← hm, ← hv] at he
      omega

/-- The code of a script, wherever it stands in the blob, passes exactly if the script holds. -/
theorem Game.conditionsFrom_of_code (hlen : c.blob.length ≤ 65535) {live : List (Nat × String)}
    {code : Bytes} (hc : Script.Compiles Condition.Said
      (fun t i => ∃ line raw, (t.compile level.ids line raw).Yields i) live code) {fuel o : Nat}
    {base : UInt16} (hat : c.blob.HoldsAt o code) (hba : base.toNat = o)
    (hf : code.length ≤ 3 * fuel) :
    ∃ b, g.conditionsFrom fuel base = some b ∧
      (b = true ↔ ∀ line ∈ live, Condition.LineHolds level g line) := by
  induction hc generalizing fuel o base with
  | nil =>
    have ht : Instruction.stop.bytes.length = 3 := rfl
    obtain ⟨fuel, rfl⟩ : ∃ k, fuel = k + 1 := ⟨fuel - 1, by omega⟩
    have hat : c.blob.HoldsAt o (Instruction.stop.bytes ++ []) := hat
    obtain ⟨hop, _, _⟩ := fetch_of_holdsAt hlen hat hba
    refine ⟨true, ?_, by simp⟩
    simp only [conditionsFrom, hp.level, hop, Instruction.stop, if_true]
  | blank hbl _ ih =>
    obtain ⟨b, hb, hiff⟩ := ih hat hba hf
    refine ⟨b, hb, ?_⟩
    rw [List.forall_mem_cons, ← hiff]
    exact (and_iff_right (.inl hbl)).symm
  | @step _ _ _ t i more hsa hi _ ih =>
    obtain ⟨line, raw, hi⟩ := hi
    obtain ⟨hop, b, hte, hiff⟩ := t.test_compile hd hs hp hflags hitems hvars hi
    obtain ⟨hfo, hfa, hfb⟩ := fetch_of_holdsAt hlen hat hba
    obtain ⟨hr, hn⟩ := next_of_holdsAt hlen hat hba
    have ht : i.bytes.length = 3 := rfl
    rw [List.length_append] at hf
    obtain ⟨fuel, rfl⟩ : ∃ k, fuel = k + 1 := ⟨fuel - 1, by omega⟩
    rw [List.forall_mem_cons, Condition.lineHolds_iff hsa, ← hiff]
    simp only [conditionsFrom, hp.level, hfo, hfa, hfb, if_neg hop, hte]
    cases b with
    | true =>
      have hf' : more.length ≤ 3 * fuel := by omega
      obtain ⟨b, hb, hall⟩ := ih hr hn hf'
      exact ⟨b, by simpa using hb, by simpa using hall⟩
    | false => exact ⟨false, by simp⟩

end

/-- The offset that is stored for the condition of an object is the one of its record. -/
theorem toNat_conditionOffset {level : Level} {c : Compiled} (hs : Stands level c) {r i : Nat}
    {room : Room} {o : LevelObject} (hr : level.rooms.values[r]? = some room)
    (ho : room.objects[i]? = some o) :
    ∃ n, Begins c.layout.conds o.cond n ∧ (c.conditionOffset r i).toNat = n % 65536 := by
  obtain ⟨l, hl, hst⟩ := exists_getElem?_of_forall₂ hs.rooms hr
  obtain ⟨record, hre, hy⟩ := exists_getElem?_of_forall₂ hst.records ho
  have hob := LevelImage.memoryWord_of_holdsAt (hs.entryWords hl).2.2.2
  rw [Nat.mod_eq_of_lt (hs.entry_lt hl).2.2.2] at hob
  have hat := hst.objects.tail.record (fun (r : ObjectRecord) _ => r.length_bytes) hre
  have hc : c.blob.HoldsAt (l.objects + 1 + 22 * i + 6) (wordOf record.cond) := hat.right.left
  refine ⟨record.cond, (objectRecord_yields hy).cond, ?_⟩
  rw [Compiled.conditionOffset, Compiled.image]
  rw [hob]
  exact LevelImage.memoryWord_of_holdsAt hc

/-- The condition of an object passes exactly if its script holds, or if it has none, or if its script is
the first one of the level, which has the offset that stands for none. -/
theorem Game.conditionsPass_iff {s : Sources} {level : Level} {c : Compiled} {g : Game}
    (hload : (load s).Yields (some level)) (hcompile : level.compile.Yields c)
    (hflags : level.flags.length ≤ 255) (hitems : level.items.length ≤ 255)
    (hvars : level.vars.length ≤ 64) (hlen : c.blob.length ≤ 65535) (hp : g.Plays c) {r i : Nat}
    {room : Room} {o : LevelObject} (hr : level.rooms.values[r]? = some room)
    (ho : room.objects[i]? = some o) :
    ∃ b, g.conditionsPass (c.conditionOffset r i) = some b ∧
      (b = true ↔ o.cond = "" ∨ level.conds.keys.head? = some o.cond ∨
        ∃ script, level.conds.get? o.cond = some script ∧ script.Holds level g) := by
  have hbuilt := built_of_load hload
  have hs := stands_of_compile hcompile
  obtain ⟨n, hbegins, hword⟩ := toNat_conditionOffset hs hr ho
  have hzero : n = 0 → g.conditionsPass (c.conditionOffset r i) = some true := by
    rintro rfl
    have h0 : c.conditionOffset r i = 0 := UInt16.toNat_inj.mp hword
    rw [conditionsPass, if_pos h0]
  by_cases hname : o.cond = ""
  · rw [Begins, if_pos hname] at hbegins
    exact ⟨true, hzero hbegins, by simp [hname]⟩
  · rw [Begins, if_neg hname] at hbegins
    have hlaid := laidOut_conditions (keyed_of_built hbuilt).conds hs.conds
    obtain ⟨script, hscript⟩ : ∃ script, level.conds.get? o.cond = some script := by
      refine Option.ne_none_iff_exists'.mp fun hnone => ?_
      rw [hlaid.other o.cond (Table.get?_eq_none_iff.mp hnone)] at hbegins
      simp at hbegins
    obtain ⟨offset, code, hoffset, hcode, hat, _, hfirst⟩ :=
      hlaid.script o.cond script (Table.mem_of_get? hscript)
    obtain rfl : n = offset := Option.some.inj (hbegins.symm.trans hoffset)
    have hfirst : n = 0 ↔ level.conds.keys.head? = some o.cond := hfirst
    have hblob := hs.condStream.trans hat
    have hend := hblob.length_le
    by_cases h0 : n = 0
    · exact ⟨true, hzero h0, by simp [hfirst.mp h0]⟩
    · have hne : c.conditionOffset r i ≠ 0 := fun he => by
        rw [he] at hword
        simp only [UInt16.reduceToNat] at hword
        omega
      have hbase : (g.level.condStream + c.conditionOffset r i).toNat = c.layout.condStream + n := by
        rw [hp.level, toNat_add_of_lt (by rw [hs.toNat_condStream hlen, hword]; omega),
          hs.toNat_condStream hlen, hword]
        omega
      have hfuel : code.length ≤ 3 * codePlaces := by
        simp only [codePlaces]
        omega
      obtain ⟨b, hb, hiff⟩ := conditionsFrom_of_code (declared_of_built hbuilt) hs hp hflags hitems
        hvars hlen (Script.compiles_of_yields Condition.says_readLine hcode) hblob hbase hfuel
      refine ⟨b, (if_neg hne).trans hb, ?_⟩
      rw [hiff, ← hfirst]
      simp [hname, h0, hscript, Script.Holds]

/-- A room with two signs whose conditions are the first and the second one of the level. -/
def signs : Sources where
  path := "signs.lvl"
  isFile := fun _ => false
  text := fun _ => .ok "LEVEL w=1 h=1 start=R:S
TILES
. 0
END
FLAGS
F
END
MESSAGES
M = \"é\"
END
COND C
FLAGSET F
END
COND D
FLAGSET F
END
ACT A
SETFLAG F
MSG M
END
ROOM R
SPAWNS
S 0,0
END
OBJECTS
O at 0,0 type=SIGN verbs=LOOK cond=C look=A
P at 0,0 type=SIGN verbs=LOOK cond=D
END
MAP
.
END
ENDROOM
"

def signsRoom : Room :=
  { id := "R", name := "R", line := 21, spawns := [("S", ⟨0, 0, 23⟩)]
    objects :=
      [{ name := "O", x := 0, y := 0, typeName := "SIGN", verbs := 1, line := 26, cond := "C"
         look := "A" },
       { name := "P", x := 0, y := 0, typeName := "SIGN", verbs := 1, line := 27, cond := "D" }]
    map := [(30, ".")] }

def signsLevel : Level :=
  { name := "UNNAMED", width := 1, height := 1, startRoom := "R", startSpawn := "S", line := 1
    tiles := [(".", 0)]
    flags := ["F"]
    messages := [("M", "é")]
    conds := [("C", ⟨"C", [(12, "FLAGSET F")]⟩), ("D", ⟨"D", [(15, "FLAGSET F")]⟩),
      ("ALWAYS", ⟨"ALWAYS", [(1, "TRUE")]⟩)]
    acts := [("A", ⟨"A", [(18, "SETFLAG F"), (19, "MSG M")]⟩)]
    rooms := [("R", signsRoom)] }

set_option maxRecDepth 10000 in
theorem load_signs : (load signs).Yields (some signsLevel) := by
  decide +kernel

/-- A game that has just been given a compiled level. -/
def Level.Compiled.newGame (c : Compiled) : Game :=
  let g : Game :=
    { shelf := { levels := [c.image] }, puzzle := .start c.image, inventory := .empty }
  (g.choose 0).initPuzzle

theorem signs_compiled : ∃ c, signsLevel.compile.Yields c ∧ c.blob.length ≤ 65535 ∧
    c.conditionOffset 0 0 = 0 ∧ c.newGame.Plays c := by
  have hch : signsLevel.compile.endsWith (fun c =>
      decide (c.blob.length ≤ 65535 ∧ c.conditionOffset 0 0 = 0)) = true := by
    decide +kernel
  obtain ⟨c, hc, hb⟩ := exists_yields_of_endsWith hch
  obtain ⟨hlen, hz⟩ := of_decide_eq_true hb
  exact ⟨c, hc, hlen, hz, Game.plays_initPuzzle (stands_of_compile hc) rfl⟩

theorem Game.conditionsPass_iff_second_sign : ∃ c b, signsLevel.compile.Yields c ∧
    c.newGame.conditionsPass (c.conditionOffset 0 1) = some b ∧
    (b = true ↔ "D" = "" ∨ signsLevel.conds.keys.head? = some "D" ∨
      ∃ script, signsLevel.conds.get? "D" = some script ∧ script.Holds signsLevel c.newGame) := by
  obtain ⟨c, hc, hlen, _, hp⟩ := signs_compiled
  obtain ⟨b, hb, hiff⟩ := conditionsPass_iff load_signs hc (by decide) (by decide) (by decide) hlen hp
    (r := 0) (i := 1) rfl rfl
  exact ⟨c, b, hc, hb, hiff⟩

/-- The first sign answers although its flag is clear: the offset of its script stands for no condition. -/
theorem Game.conditionsPass_first_sign : ∃ c, (load signs).Yields (some signsLevel) ∧
    signsLevel.compile.Yields c ∧ c.blob.length ≤ 65535 ∧ c.newGame.Plays c ∧
    (signsRoom.objects[0]?).map LevelObject.cond = some "C" ∧
    c.newGame.conditionsPass (c.conditionOffset 0 0) = some true ∧
    ∃ script, signsLevel.conds.get? "C" = some script ∧ ¬script.Holds signsLevel c.newGame := by
  obtain ⟨c, hc, hlen, hzero, hp⟩ := signs_compiled
  refine ⟨c, load_signs, hc, hlen, hp, rfl, ?_, ⟨"C", [(12, "FLAGSET F")]⟩, by decide +kernel, ?_⟩
  · rw [conditionsPass, if_pos hzero]
  · intro hholds
    have hsaid : Condition.Said (Text.words "FLAGSET F") (.flagSet "F") := by
      have hwords : Text.words "FLAGSET F" = ["FLAGSET", "F"] := by decide +kernel
      rw [hwords]
      exact .flagSet (by decide +kernel)
    have hline := hholds (12, "FLAGSET F") (by decide +kernel)
    obtain ⟨i, _, hbit⟩ := (Condition.lineHolds_iff hsaid).mp hline
    have hclear : c.newGame.puzzle.bit i = false := Puzzle.bit_start _ i
    rw [hclear] at hbit
    exact Bool.false_ne_true hbit

end EscapeRoom
