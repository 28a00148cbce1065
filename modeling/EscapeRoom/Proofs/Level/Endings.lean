import EscapeRoom.Proofs.Level.Breakdowns
import EscapeRoom.Proofs.Level.Offsets
import EscapeRoom.Proofs.Level.Range
import EscapeRoom.Proofs.Notes

/-!
# How compiling a level ends

A level that was read may be wrong in many ways, and it is compiled to the end all the same. The stamps that it has from
its tileset have a tile for every cell that they cover, whatever was reported about the tileset. What is left that makes
compiling break off are stamps that meet below a map, where there is no line to report, and offsets that do not fit.
-/

namespace EscapeRoom

open Report

def Stamp.Sized (s : Stamp) : Prop :=
  (s.tiles.length : Int) = s.width * s.height

/-- The object names as many tiles as its size tells. -/
def ObjectDef.Sized (o : ObjectDef) : Prop :=
  (o.tiles.length : Int) = o.width * o.height

namespace Tileset

variable {names : Table String Int} {ts ts' : LinkedTileset} {o : ObjectDef}

theorem sized_of_readObject {e : ObjectEntry} (h : (e.read names).Returns (some o)) : o.Sized := by
  unfold ObjectEntry.read at h
  dsimp only at h
  split at h
  · simp at h
  · split at h
    · split at h
      · simp at h
      · split at h
        · split at h
          · simp at h
          · rename_i hc
            simp only [returns_bind, returns_pure, Option.some.injEq] at h
            obtain ⟨_, _, rfl⟩ := h
            exact not_ne_iff.mp hc
        · simp at h
    · simp at h

theorem sized_of_readObjects {entries : List ObjectEntry} {objects : List ObjectDef}
    (h : (readObjects names entries).Returns objects) : ∀ o ∈ objects, o.Sized := by
  refine Report.Returns.foldlM_induction (P := fun _ objects => ∀ o ∈ objects, ObjectDef.Sized o) h (by simp) ?_
  intro _ e objects objects' hold hs
  obtain ⟨read, hr, hs⟩ := returns_bind.mp hs
  cases read with
  | none => exact returns_pure.mp hs ▸ hold
  | some o =>
    rw [← returns_pure.mp hs]
    intro o' ho'
    rcases List.mem_append.mp ho' with ho' | ho'
    · exact hold o' ho'
    · exact List.mem_singleton.mp ho' ▸ sized_of_readObject hr

theorem sized_of_link {e : CharmapEntry} (hts : ∀ entry ∈ ts.objects, entry.2.Sized) (h : (e.link ts).Returns ts') :
    ∀ entry ∈ ts'.objects, entry.2.Sized := by
  unfold CharmapEntry.link at h
  split at h
  · exact returns_pure.mp h ▸ hts
  · split at h
    · simp only [returns_bind, returns_report, returns_pure, true_and, exists_const] at h
      exact h ▸ hts
    · rename_i o ho
      split at h
      · simp only [returns_bind, returns_report, returns_pure, true_and, exists_const] at h
        exact h ▸ hts
      · rw [← returns_pure.mp h]
        exact Table.forall_mem_put hts (hts (e.target, o) (Table.mem_of_get? ho))

theorem sized_of_stamp {stamp : Stamp} (ho : o.Sized) (h : (ObjectDef.stamp o names).Returns (some stamp)) :
    stamp.Sized := by
  unfold ObjectDef.stamp at h
  split at h
  · simp at h
  · obtain ⟨tiles, ht, h⟩ := returns_bind.mp h
    obtain rfl := Option.some.inj (returns_pure.mp h)
    rw [Stamp.Sized, ← (returns_mapM.mp ht).length_eq]
    exact ho

theorem sized_of_readStamps {stamps : Table String Stamp} (hts : ∀ entry ∈ ts.objects, entry.2.Sized)
    (h : (readStamps ts).Returns stamps) : ∀ e ∈ stamps, e.2.Sized := by
  have hob : ∀ o ∈ ts.objects.values, o.Sized := by
    intro o ho
    obtain ⟨entry, he, rfl⟩ := List.mem_map.mp ho
    exact hts entry he
  refine Report.Returns.foldlM_induction (P := fun done stamps => (∀ o ∈ done, ObjectDef.Sized o) →
    ∀ e ∈ (stamps : Table String Stamp), e.2.Sized) h (by simp) ?_ hob
  intro done o stamps stamps' hold hs hdo
  have hold := hold fun o ho => hdo o (List.mem_append_left _ ho)
  obtain ⟨stamp, hst, hs⟩ := returns_bind.mp hs
  cases stamp with
  | none => exact returns_pure.mp hs ▸ hold
  | some stamp =>
    rw [← returns_pure.mp hs]
    exact Table.forall_mem_put hold (sized_of_stamp (hdo o (by simp)) hst)

theorem sized_of_read {s : Surroundings} {text : String} (h : (read s text).Returns ts) : ∀ e ∈ ts.stamps, e.2.Sized := by
  unfold read at h
  simp only [returns_bind, returns_pure] at h
  obtain ⟨p, -, base, -, objects, hob, linked, hl, stamps, hs, rfl⟩ := h
  have hsi := sized_of_readObjects hob
  refine sized_of_readStamps ?_ hs
  refine Report.Returns.foldlM_induction (P := fun _ linked => ∀ entry ∈ LinkedTileset.objects linked, entry.2.Sized)
    hl ?_ fun _ e ts ts' hts hli => sized_of_link hts hli
  apply Table.forall_mem_ofEntries
  intro entry he
  obtain ⟨o, ho, rfl⟩ := List.mem_map.mp he
  exact hsi o ho

end Tileset

namespace Level

variable {s : Sources} {p p' : Progress} {line : Line} {level : Level} {b : Breakdown}

structure Progress.Sized (p : Progress) : Prop where
  stamps : ∀ e ∈ p.stamps, e.2.Sized
  level : ∀ level, p.level = some level → ∀ e ∈ level.stamps, e.2.Sized

structure Progress.SameStamps (p p' : Progress) : Prop where
  stamps : p'.stamps = p.stamps
  level : p'.level.map (·.stamps) = p.level.map (·.stamps)

theorem Progress.SameStamps.sized (h : p.SameStamps p') (hp : p.Sized) : p'.Sized := by
  refine ⟨h.stamps ▸ hp.stamps, fun level hlevel => ?_⟩
  have hs := h.level
  rw [hlevel, Option.map_some, eq_comm, Option.map_eq_some_iff] at hs
  obtain ⟨before, hb, hst⟩ := hs
  exact hst ▸ hp.level before hb

theorem Progress.SameStamps.refl (p : Progress) : p.SameStamps p :=
  ⟨rfl, rfl⟩

@[simp] theorem returns_reportAt {cause : Cause} {column : Nat} (u : Unit) : (reportAt line cause column).Returns u :=
  returns_report _ _

@[simp] theorem returns_reportToken {cause : Cause} {token : String} (u : Unit) :
    (reportToken line cause token).Returns u :=
  returns_reportAt u

theorem readTileset_sized {path : String} {ts : LinkedTileset} (h : (readTileset s path).Returns (.ok ts)) :
    ∀ e ∈ ts.stamps, e.2.Sized := by
  unfold readTileset at h
  split at h
  · simp at h
  · simp only [returns_bind, returns_report, returns_pure, true_and, exists_const, Except.ok.injEq] at h
    simp [← h]
  · simp at h
  · dsimp only at h
    obtain ⟨_, -, h⟩ := returns_bind.mp h
    split at h
    · rename_i tileset ht
      obtain rfl := Except.ok.inj (returns_pure.mp h)
      exact Tileset.sized_of_read ht
    · simp only [returns_bind, returns_report, returns_pure, true_and, exists_const, Except.ok.injEq] at h
      simp [← h]
    · simp at h
    · simp at h

theorem linkTileset_sized {tileset : String} (hp : p.Sized) (h : (linkTileset s line tileset p).Returns (.ok p')) :
    p'.Sized := by
  unfold linkTileset at h
  rw [← tilesetPath] at h
  dsimp only at h
  split at h
  · obtain ⟨linked, hl, h⟩ := returns_bind.mp h
    cases linked with
    | error fault => simp at h
    | ok ts =>
      obtain rfl := Except.ok.inj (returns_pure.mp h)
      exact ⟨readTileset_sized hl, hp.level⟩
  · obtain rfl : p = p' := by simpa using h
    exact hp

theorem stamps_of_headerLevel {fields : Fields} {width height : String} {start : String × String}
    (h : headerLevel line fields p width height start = .ok level) : level.stamps = p.stamps := by
  unfold headerLevel at h
  cases hw : parseSize width with
  | error e =>
    rw [hw] at h
    cases h
  | ok w =>
    cases hh : parseSize height with
    | error e =>
      rw [hw, hh] at h
      cases h
    | ok height =>
      rw [hw, hh] at h
      cases h
      rfl

theorem readHeader_sized (hp : p.Sized) (h : (readHeader s line p).Returns p') : p'.Sized := by
  have hs : Progress.Sized { p with headerSeen := true } := ⟨hp.stamps, hp.level⟩
  unfold readHeader at h
  generalize Fields.scan line.text = fields at h
  dsimp only at h
  split at h
  · rename_i width height start _ _ _
    split at h
    · simp only [returns_bind, returns_reportToken, returns_pure, true_and, exists_const] at h
      exact h ▸ hs
    · rename_i place _
      have hlevel : ∀ {q : Progress} {level : Level}, q.Sized → headerLevel line fields q width height place = .ok level →
          Progress.Sized { q with level := some level } := by
        intro q level hq hl
        exact ⟨hq.stamps, fun _ he => Option.some.inj he ▸ stamps_of_headerLevel hl ▸ hq.stamps⟩
      split at h
      · rw [pure_bind] at h
        dsimp only at h
        split at h
        · simp only [returns_bind, returns_reportToken, returns_pure, true_and, exists_const] at h
          exact h ▸ hs
        · rename_i level hl
          exact returns_pure.mp h ▸ hlevel hs hl
      · obtain ⟨linked, hlinked, h⟩ := returns_bind.mp h
        cases linked with
        | error fault =>
          simp only [returns_bind, returns_reportToken, returns_pure, true_and, exists_const] at h
          exact h ▸ hs
        | ok q =>
          have hq : q.Sized := linkTileset_sized hs hlinked
          dsimp only at h
          split at h
          · simp only [returns_bind, returns_reportToken, returns_pure, true_and, exists_const] at h
            exact h ▸ hq
          · rename_i level hl
            exact returns_pure.mp h ▸ hlevel hq hl
  · simp only [returns_bind, returns_reportToken, returns_pure, true_and, exists_const] at h
    exact h ▸ hs

theorem readEnd_sameStamps (p : Progress) : p.SameStamps (readEnd p) := by
  unfold readEnd
  dsimp only
  split
  · rename_i kind script level _ hlevel
    cases kind <;> exact ⟨rfl, by simp [closeScript, hlevel]⟩
  · exact ⟨rfl, rfl⟩

theorem readRoomEnd_sameStamps (h : (readRoomEnd line p).Returns p') : p.SameStamps p' := by
  unfold readRoomEnd at h
  split at h
  · rename_i level room hlevel _
    rw [← returns_pure.mp h]
    exact ⟨rfl, by simp [hlevel]⟩
  · obtain rfl : p = p' := by simpa using h
    exact .refl p

theorem inRoom_sameStamps {read : Room → Compiling Room} (h : (inRoom p read).Returns p') : p.SameStamps p' := by
  unfold inRoom at h
  split at h
  · obtain ⟨room, -, h⟩ := returns_bind.mp h
    exact returns_pure.mp h ▸ ⟨rfl, rfl⟩
  · exact returns_pure.mp h ▸ .refl p

theorem readScriptHeader_sameStamps {kind : ScriptKind} {parts : List String}
    (h : (readScriptHeader line p level kind parts).Returns p') : p.SameStamps p' := by
  unfold readScriptHeader at h
  split at h
  · extract_lets taken at h
    split at h
    · obtain rfl : p = p' := by simpa using h
      exact .refl p
    · exact returns_pure.mp h ▸ ⟨rfl, rfl⟩
  · obtain rfl : p = p' := by simpa using h
    exact .refl p

theorem readRoomHeader_sameStamps {parts : List String} (h : (readRoomHeader line p level parts).Returns p') :
    p.SameStamps p' := by
  unfold readRoomHeader at h
  split at h
  · split at h
    · obtain rfl : p = p' := by simpa using h
      exact .refl p
    · exact returns_pure.mp h ▸ ⟨rfl, rfl⟩
  · obtain rfl : p = p' := by simpa using h
    exact .refl p

section

variable (hlevel : p.level = some level)
include hlevel

theorem readEntry_sameStamps {parts : List String} (h : (readEntry line p level parts).Returns p') : p.SameStamps p' := by
  unfold readEntry at h
  dsimp only at h
  split at h
  · unfold readTile at h
    dsimp only at h
    split at h
    · simp only [returns_bind, returns_reportToken, returns_pure, true_and, exists_const] at h
      exact h ▸ ⟨rfl, rfl⟩
    · split at h
      · simp at h
      · split at h
        · exact returns_pure.mp h ▸ ⟨rfl, by simp [hlevel]⟩
        · simp only [returns_bind, returns_reportToken, returns_pure, true_and, exists_const] at h
          exact h ▸ ⟨rfl, rfl⟩
  · obtain ⟨flags, -, h⟩ := returns_bind.mp h
    exact returns_pure.mp h ▸ ⟨rfl, by simp [hlevel]⟩
  · obtain ⟨vars, -, h⟩ := returns_bind.mp h
    exact returns_pure.mp h ▸ ⟨rfl, by simp [hlevel]⟩
  · obtain ⟨items, -, h⟩ := returns_bind.mp h
    exact returns_pure.mp h ▸ ⟨rfl, by simp [hlevel]⟩
  · unfold readMessage at h
    split at h
    · obtain rfl : p = p' := by simpa using h
      exact .refl p
    · split at h
      · obtain rfl : p = p' := by simpa using h
        exact .refl p
      · exact returns_pure.mp h ▸ ⟨rfl, by simp [hlevel]⟩
  · exact inRoom_sameStamps h
  · exact inRoom_sameStamps h
  · exact inRoom_sameStamps h
  · obtain rfl : p = p' := by simpa using h
    exact .refl p
  · obtain rfl : p = p' := by simpa using h
    exact .refl p

theorem readHead_sameStamps {parts : List String} (h : (readHead line p level parts).Returns p') : p.SameStamps p' := by
  unfold readHead at h
  dsimp only at h
  split at h
  · exact returns_pure.mp h ▸ ⟨rfl, rfl⟩
  · split at h
    · exact returns_pure.mp h ▸ ⟨rfl, rfl⟩
    · obtain rfl : p = p' := by simpa using h
      exact .refl p
  · split at h
    · exact readScriptHeader_sameStamps h
    · split at h
      · exact readScriptHeader_sameStamps h
      · split at h
        · exact readRoomHeader_sameStamps h
        · exact readEntry_sameStamps hlevel h

end

theorem readLine_sized (hp : p.Sized) (h : (readLine s p line).Returns p') : p'.Sized := by
  unfold readLine at h
  split at h
  · exact returns_pure.mp h ▸ (readEnd_sameStamps p).sized hp
  · split at h
    · exact (readRoomEnd_sameStamps h).sized hp
    · split at h
      · exact returns_pure.mp h ▸ ⟨hp.stamps, hp.level⟩
      · split at h
        · unfold readMapRow at h
          split at h
          · exact returns_pure.mp h ▸ ⟨hp.stamps, hp.level⟩
          · obtain rfl : p = p' := by simpa using h
            exact hp
        · dsimp only at h
          split at h
          · exact readHeader_sized hp h
          · split at h
            · obtain rfl : p = p' := by simpa using h
              exact hp
            · split at h
              · exact returns_pure.mp h ▸ hp
              · rename_i level hlevel
                exact (readHead_sameStamps hlevel h).sized hp

theorem stamps_addAlways (level : Level) : (addAlways level).stamps = level.stamps := by
  unfold addAlways
  split <;> rfl

theorem finish_sized (hp : p.Sized) (h : (finish p).Returns level) : ∀ e ∈ level.stamps, e.2.Sized := by
  unfold finish at h
  split at h
  · simp only [returns_bind, returns_report, returns_pure, true_and, exists_const] at h
    rw [← h, stamps_addAlways]
    simp [missingLevel]
  · rename_i before hb
    split at h
    · rw [← returns_pure.mp h, stamps_addAlways]
      exact hp.level before hb
    · split at h
      · simp only [returns_bind, returns_report, returns_pure, true_and, exists_const] at h
        rw [← h, stamps_addAlways]
        exact hp.level before hb
      · rw [← returns_pure.mp h, stamps_addAlways]
        exact hp.level before hb

/-- The stamps of a level that was read are sized, whatever was reported about it. -/
theorem sized_of_load (h : (load s).Returns (some level)) : ∀ e ∈ level.stamps, e.2.Sized := by
  unfold load at h
  split at h
  · simp at h
  · obtain ⟨read, hr, he⟩ := returns_map.mp h
    obtain rfl := Option.some.inj he
    obtain ⟨p, hp, hf⟩ := returns_bind.mp hr
    refine finish_sized ?_ hf
    refine Report.Returns.foldlM_induction (P := fun _ p => Progress.Sized p) hp ⟨by simp, by simp⟩ ?_
    intro _ line p p' hp hl
    exact readLine_sized hp hl

theorem Block.exists_tile {b : Block} (h : b.stamp.Sized) {x y : Nat} (hc : b.Covers x y) :
    (y - b.y) * b.stamp.width.toNat + (x - b.x) < b.stamp.tiles.length := by
  unfold Block.Covers at hc
  have hw : b.stamp.WellFormed := ⟨by omega, by omega, h⟩
  have hrow : (y - b.y + 1) * b.stamp.width.toNat ≤ b.stamp.height.toNat * b.stamp.width.toNat :=
    Nat.mul_le_mul_right _ (by omega)
  rw [hw.tiles_length, Nat.mul_comm b.stamp.width.toNat]
  rw [Nat.succ_mul] at hrow
  omega

/-- A level that was read is compiled to the end, whatever is reported about it, unless stamps meet below the map of a
room or an offset does not fit into two bytes. Every cell of a stamp that is laid has its tile, and the offsets of the
blob are those that the sizes of its parts tell. -/
theorem compile_returns_iff (h : (load s).Returns (some level)) :
    ((∃ compiled, (compile level).Returns compiled) ↔
      (∀ room ∈ level.rooms.values, ¬Collides level room) ∧ ∀ n ∈ level.offsets, n < 65536) ∧
    (∀ fault, (compile level).BreaksOff fault ↔
      (fault = .belowMap ∧ ∃ room ∈ level.rooms.values, Collides level room) ∨
      (fault = .offsetTooLarge ∧ (∀ room ∈ level.rooms.values, ¬Collides level room) ∧
        ∃ n ∈ level.offsets, 65536 ≤ n)) ∧
    (∀ compiled, (compile level).Returns compiled →
      compiled.layout.messages ++ compiled.layout.rooms.flatMap RoomLayout.entry = level.offsets) ∧
    ∀ room ∈ level.rooms.values, ∀ b : Block, b.Laid level room → ∀ x y, b.Covers x y →
      (y - b.y) * b.stamp.width.toNat + (x - b.x) < b.stamp.tiles.length := by
  refine ⟨?_, fun fault => compile_breaksOff, fun compiled => offsets_of_compile, ?_⟩
  · simp only [exists_returns_iff, compile_breaksOff, not_or, not_and, not_exists]
    constructor
    · intro hnone
      have hrooms : ∀ room ∈ level.rooms.values, ¬Collides level room := (hnone .belowMap).1 rfl
      exact ⟨hrooms, fun n hn => Nat.lt_of_not_le ((hnone .offsetTooLarge).2 rfl hrooms n hn)⟩
    · rintro ⟨hrooms, hoffsets⟩ fault
      exact ⟨fun _ => hrooms, fun _ _ n hn => Nat.not_le_of_lt (hoffsets n hn)⟩
  · intro room _ b hb x y hcovers
    exact Block.exists_tile (sized_of_load h _ (Table.mem_of_get? hb.starts.stamp)) hcovers

/-- A level of three rows whose map has only two. One stamp hangs down from the first row, another from the second. -/
def shaft : Sources where
  path := "a.lvl"
  isFile := fun path => path = "b.tset"
  text := fun path => .ok (if path = "b.tset" then
    "TSET tileSize=2x2 bgColor=0 mc1Color=1 mc2Color=2
TILES
T chars=1,2,3,4 color=5
END
OBJECTS
P size=1x3 tiles=T,T,T
Q size=2x2 tiles=T,T,T,T
END
CHARMAP
. T
A P
B Q
END
" else
    "LEVEL w=2 h=3 start=R:S tset=b.tset
ROOM R
SPAWNS
S 0,0
END
MAP
.A
BB
END
ENDROOM
")

def shaftLevel : Level where
  name := "UNNAMED"
  width := 2
  height := 3
  startRoom := "R"
  startSpawn := "S"
  line := 1
  tiles := [(".", 0)]
  stamps := [("A", ⟨"P", 1, 3, [0, 0, 0], "A"⟩), ("B", ⟨"Q", 2, 2, [0, 0, 0, 0], "B"⟩)]
  conds := [("ALWAYS", ⟨"ALWAYS", [(1, "TRUE")]⟩)]
  rooms := [("R", { id := "R", name := "R", line := 2, spawns := [("S", ⟨0, 0, 4⟩)], map := [(7, ".A"), (8, "BB")] })]

theorem load_shaft : (load shaft).Yields (some shaftLevel) := by
  decide +kernel

theorem shaftLevel_breaksOff : (compile shaftLevel).BreaksOff .belowMap := by
  decide +kernel

theorem compile_returns_iff_shaft : (load shaft).Returns (some shaftLevel) ∧
    (∃ room ∈ shaftLevel.rooms.values, Collides shaftLevel room) ∧ (load outpost).Returns (some outpostLevel) ∧
    (∀ room ∈ outpostLevel.rooms.values, ¬Collides outpostLevel room) ∧ ∀ n ∈ outpostLevel.offsets, n < 65536 := by
  have hshaft := (yields_iff_notes.mp load_shaft).1
  have houtpost := (yields_iff_notes.mp load_outpost).1
  obtain ⟨c, hc⟩ := outpost_compiled
  have hmeet := ((compile_returns_iff hshaft).2.1 .belowMap).mp shaftLevel_breaksOff
  exact ⟨hshaft, by simpa using hmeet, houtpost, (compile_returns_iff houtpost).1.mp ⟨c, (yields_iff_notes.mp hc).1⟩⟩

/-- The two stamps meet below the second row, and compiling breaks off although all offsets are small. -/
theorem compile_breaksOff_below_short_map : (load shaft).Returns (some shaftLevel) ∧
    (compile shaftLevel).BreaksOff .belowMap ∧ ∀ n ∈ shaftLevel.offsets, n < 65536 :=
  ⟨(yields_iff_notes.mp load_shaft).1, shaftLevel_breaksOff, by decide⟩

end Level

end EscapeRoom
