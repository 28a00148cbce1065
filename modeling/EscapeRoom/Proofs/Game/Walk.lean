import EscapeRoom.Game.Loop
import EscapeRoom.Proofs.Game.Drawing
import EscapeRoom.Proofs.Game.Plays
import EscapeRoom.Proofs.Level.ScriptLines

/-!
# Walking through a level

In a level whose spawn points lie inside its map, the player never leaves the map and the current room is
always a room of the level, whatever the joystick does and whichever scripts are run in between. A tick
moves the player by one cell, or through the first exit at the edge that the player walks into, or not at
all.
-/

namespace EscapeRoom

open Report

open Level

theorem find?_of_forall₂ {α β : Type} {R : α → β → Prop} {p : α → Bool} {q : β → Bool} {xs : List α}
    {ys : List β} (h : List.Forall₂ R xs ys) (hpq : ∀ x y, R x y → p x = q y) :
    Option.Rel R (xs.find? p) (ys.find? q) := by
  induction h with
  | nil => exact .none
  | @cons x y xs ys hxy _ ih =>
    rw [List.find?_cons, List.find?_cons, hpq x y hxy]
    cases q y with
    | true => exact .some hxy
    | false => exact ih

theorem toNat_sub_one {a : UInt8} (h : a.toNat ≠ 0) : (a - 1).toNat = a.toNat - 1 :=
  UInt8.toNat_sub_of_le _ _ (UInt8.le_iff_toNat_le.mpr (Nat.one_le_iff_ne_zero.mpr h))

theorem toNat_add_one {a : UInt8} (h : a.toNat < 255) : (a + 1).toNat = a.toNat + 1 := by
  rw [UInt8.toNat_add]
  simp only [UInt8.reduceToNat]
  omega

def Exit.liesAt (e : Exit) (d : Game.Direction) : Bool :=
  exitEdges.get? e.edge == some d.edge.toNat

theorem Level.IsExit.liesAt_eq {level : Level} {e : Exit} {record : ExitRecord}
    (h : level.IsExit e record.edge.toNat record.room.toNat record.spawn.toNat) (d : Game.Direction) :
    e.liesAt d = (record.edge == d.edge) := by
  rw [Exit.liesAt, h.1, Bool.eq_iff_iff, beq_iff_eq, beq_iff_eq, Option.some.injEq, UInt8.toNat_inj]

/-- The cell beside a cell in a direction, unless that is outside the map. -/
def Game.Direction.beside (level : Level) (d : Game.Direction) (x y : Nat) : Option (Nat × Nat) :=
  match d with
  | .left => if x = 0 then none else some (x - 1, y)
  | .right => if x + 1 < level.width.toNat then some (x + 1, y) else none
  | .up => if y = 0 then none else some (x, y - 1)
  | .down => if y + 1 < level.height.toNat then some (x, y + 1) else none

namespace Game

/-- The current room and the spawn point at which it was entered are those of a level. -/
structure InRoom (g : Game) (level : Level) (c : Compiled) : Prop where
  image : g.level = c.image
  source : g.room.mapLevel = some g.choice
  room : ∃ room, level.rooms.values[g.room.id.toNat]? = some room ∧
    g.room.spawn.toNat < room.spawns.length
  offsets : g.room.offsets = c.image.roomOffsets g.room.id

/-- The player is inside the map of a room of a level. -/
structure Inside (g : Game) (level : Level) (c : Compiled) : Prop extends g.InRoom level c where
  x : g.player.x.toNat < level.width.toNat
  y : g.player.y.toNat < level.height.toNat
  started : g.player.started = true

/-- The player stands on the spawn point at which the current room was entered. -/
def OnSpawn (g : Game) (level : Level) : Prop :=
  ∃ room s, level.rooms.values[g.room.id.toNat]? = some room ∧
    room.spawns.values[g.room.spawn.toNat]? = some s ∧
    (g.player.x.toNat : Int) = s.x ∧ (g.player.y.toNat : Int) = s.y

/-- Whether the metatile of a cell of the current room keeps the player out. -/
def CellSolid (g : Game) (level : Level) (x y : Nat) (solid : Bool) : Prop :=
  ∃ room ids id, level.rooms.values[g.room.id.toNat]? = some room ∧ TileIds level room ids ∧
    ids[y * level.width.toNat + x]? = some id ∧ (g.metatile (byteOf id)).isSolid = solid

/-- What a tick does to the room and to the position of the player, by the direction that is newly
pressed. -/
inductive Ticks (level : Level) (g g' : Game) : Option Direction → Prop
  | idle : g'.room = g.room → g'.player = g.player → Ticks level g g' none
  | walks {d : Direction} {x y : Nat} :
      d.beside level g.player.x.toNat g.player.y.toNat = some (x, y) → g.CellSolid level x y false →
      g'.room = g.room → g'.player.x.toNat = x → g'.player.y.toNat = y → Ticks level g g' (some d)
  | bumps {d : Direction} {x y : Nat} :
      d.beside level g.player.x.toNat g.player.y.toNat = some (x, y) → g.CellSolid level x y true →
      g'.room = g.room → g'.player = g.player → Ticks level g g' (some d)
  | leaves {d : Direction} {room : Room} {e : Exit} :
      d.beside level g.player.x.toNat g.player.y.toNat = none →
      level.rooms.values[g.room.id.toNat]? = some room → room.exits.find? (·.liesAt d) = some e →
      level.IsPlace e.room e.spawn g'.room.id.toNat g'.room.spawn.toNat → g'.OnSpawn level →
      Ticks level g g' (some d)
  | stops {d : Direction} {room : Room} :
      d.beside level g.player.x.toNat g.player.y.toNat = none →
      level.rooms.values[g.room.id.toNat]? = some room → room.exits.find? (·.liesAt d) = none →
      g'.room = g.room → g'.player = g.player → Ticks level g g' (some d)

variable {level : Level} {c : Compiled} {g g' : Game}

structure Unmoved (g g' : Game) : Prop where
  level : g'.level = g.level
  choice : g'.choice = g.choice
  room : g'.room = g.room
  player : g'.player = g.player

theorem Unmoved.trans {g₁ g₂ : Game} (h₁ : g.Unmoved g₁) (h₂ : g₁.Unmoved g₂) : g.Unmoved g₂ :=
  ⟨h₂.level.trans h₁.level, h₂.choice.trans h₁.choice, h₂.room.trans h₁.room, h₂.player.trans h₁.player⟩

theorem Redrawn.unmoved (h : g.Redrawn g') : g.Unmoved g' := by
  obtain ⟨_, rfl⟩ := h
  exact ⟨rfl, rfl, rfl, rfl⟩

theorem unmoved_note (g : Game) (e : Effect) : g.Unmoved (g.note e) :=
  ⟨rfl, rfl, rfl, rfl⟩

theorem unmoved_poke (g : Game) (address : Nat) (value : UInt8) : g.Unmoved (g.poke address value) :=
  ⟨rfl, rfl, rfl, rfl⟩

theorem unmoved_pokeAll (g : Game) (address : Nat) (values : Bytes) :
    g.Unmoved (g.pokeAll address values) :=
  ⟨rfl, rfl, rfl, rfl⟩

theorem unmoved_initSprite (g : Game) : g.Unmoved g.initSprite := by
  have hc : ∀ (g : Game) (colors : DisplayColors), g.Unmoved { g with colors } :=
    fun _ _ => ⟨rfl, rfl, rfl, rfl⟩
  unfold initSprite
  exact ((((unmoved_pokeAll g _ _).trans (unmoved_note _ _)).trans (unmoved_poke _ _ _)).trans
    (hc _ _)).trans (unmoved_note _ _)

theorem unmoved_initText (g : Game) : g.Unmoved g.initText := by
  have ht : g.Unmoved { g with text := none, textWindow := { top := 24, width := 40, height := 1 } } :=
    ⟨rfl, rfl, rfl, rfl⟩
  exact (ht.trans (unmoved_note _ _)).trans (unmoved_note _ _)

theorem unmoved_initScreen (g : Game) : g.Unmoved g.initScreen := by
  obtain ⟨_, _, _, he⟩ := initScreen_eq g
  rw [he]
  exact ⟨rfl, rfl, rfl, rfl⟩

theorem unmoved_prepared (g : Game) : g.Unmoved (initScreen (checkTiles (initText (initPuzzle
    { (g.note .interruptsOff).initButtons with inventory := .empty })))) := by
  have hb : ∀ g : Game, g.Unmoved g.initButtons := fun _ => ⟨rfl, rfl, rfl, rfl⟩
  have hi : ∀ g : Game, g.Unmoved { g with inventory := .empty } := fun _ => ⟨rfl, rfl, rfl, rfl⟩
  have hp : ∀ g : Game, g.Unmoved g.initPuzzle := fun _ => ⟨rfl, rfl, rfl, rfl⟩
  have ht : ∀ g : Game, g.Unmoved g.checkTiles := fun _ => ⟨rfl, rfl, rfl, rfl⟩
  exact ((((((unmoved_note g _).trans (hb _)).trans (hi _)).trans (hp _)).trans
    (unmoved_initText _)).trans (ht _)).trans (unmoved_initScreen _)

theorem InRoom.of_eq (h : g.InRoom level c) (hl : g'.level = g.level) (hc : g'.choice = g.choice)
    (hr : g'.room = g.room) : g'.InRoom level c := by
  refine ⟨hl.trans h.image, ?_, ?_, ?_⟩
  · rw [hr, hc]
    exact h.source
  · rw [hr]
    exact h.room
  · rw [hr]
    exact h.offsets

theorem InRoom.of_unmoved (h : g.InRoom level c) (hs : g.Unmoved g') : g'.InRoom level c :=
  h.of_eq hs.level hs.choice hs.room

theorem Inside.of_unmoved (h : g.Inside level c) (hs : g.Unmoved g') : g'.Inside level c := by
  refine ⟨h.toInRoom.of_unmoved hs, ?_, ?_, ?_⟩
  · rw [hs.player]
    exact h.x
  · rw [hs.player]
    exact h.y
  · rw [hs.player]
    exact h.started

theorem inRoom_loadRoom (hl : g.level = c.image) {room spawn : String} {r s : UInt8}
    (hp : level.IsPlace room spawn r.toNat s.toNat) : (g.loadRoom r s).InRoom level c := by
  obtain ⟨found, hf, hs⟩ := hp
  have hlt := (List.getElem?_eq_some_iff.mp hs).1
  rw [Table.keys, List.length_map] at hlt
  exact ⟨hl, rfl, ⟨found, Table.getElem?_values hf, hlt⟩, by rw [← hl]; rfl⟩

end Game

/-- A compiled level that can be walked through: it fits into its blob, and its spawn points lie inside its
map. -/
structure Level.Walkable (level : Level) (c : Compiled) : Prop where
  keyed : level.Keyed
  fits : level.Fits
  stands : Stands level c
  length : c.blob.length ≤ 65535
  spawns : ∀ room ∈ level.rooms.values, ∀ s ∈ room.spawns.values,
    0 ≤ s.x ∧ s.x < level.width ∧ 0 ≤ s.y ∧ s.y < level.height

namespace Game

section

variable {level : Level} {c : Compiled} {g g' : Game} (hw : level.Walkable c)
include hw

/-! Entering rooms -/

theorem InRoom.showsRoom (h : g.InRoom level c) {room : Room}
    (hr : level.rooms.values[g.room.id.toNat]? = some room) :
    ShowsRoom level g.level room g.room.offsets := by
  have hs := hw.stands.showsRoom hw.keyed hw.fits hw.length hr
  rwa [UInt8.ofNat_toNat, ← h.offsets, ← h.image] at hs

theorem onSpawn_placeAtSpawn (h : g.InRoom level c) : g.placeAtSpawn.OnSpawn level ∧
    g.placeAtSpawn.player.x.toNat < level.width.toNat ∧
    g.placeAtSpawn.player.y.toNat < level.height.toNat := by
  obtain ⟨room, hr, hlt⟩ := h.room
  obtain ⟨s, hs⟩ : ∃ s, room.spawns.values[g.room.spawn.toNat]? = some s :=
    ⟨_, List.getElem?_eq_getElem (by rwa [length_values])⟩
  have hc := (h.showsRoom hw hr).spawns _ s hs
  rw [UInt8.ofNat_toNat] at hc
  have hi := hw.spawns room (List.mem_of_getElem? hr) s (List.mem_of_getElem? hs)
  have hx : (g.placeAtSpawn.player.x.toNat : Int) = s.x := hc.1
  have hy : (g.placeAtSpawn.player.y.toNat : Int) = s.y := hc.2
  exact ⟨⟨room, s, hr, hs, hx, hy⟩, by omega, by omega⟩

theorem inside_enter (hl : g.level = c.image) (hs : g.player.started = true)
    {room spawn : String} {r s : UInt8} (hp : level.IsPlace room spawn r.toNat s.toNat) :
    let after := (g.loadRoom r s).drawRoom.placeAtSpawn.moveSprite
    after.Inside level c ∧ after.OnSpawn level ∧ after.room.id = r ∧ after.room.spawn = s := by
  have hdr := (redrawn_drawRoom (g.loadRoom r s)).unmoved
  have hin := (inRoom_loadRoom hl hp).of_unmoved hdr
  obtain ⟨hsp, hx, hy⟩ := onSpawn_placeAtSpawn hw hin
  refine ⟨⟨hin.of_eq rfl rfl rfl, hx, hy, ?_⟩, hsp, ?_, ?_⟩
  · exact (congrArg Player.started hdr.player).trans hs
  · exact congrArg CurrentRoom.id hdr.room
  · exact congrArg CurrentRoom.spawn hdr.room

/-! Walking -/

theorem exits_of_inRoom (h : g.InRoom level c) {room : Room}
    (hr : level.rooms.values[g.room.id.toNat]? = some room) :
    List.Forall₂ (fun e record => level.IsExit e record.edge.toNat record.room.toNat record.spawn.toNat)
      room.exits g.exits := by
  have hs := h.showsRoom hw hr
  have hc : g.exits.length = room.exits.length := by
    rw [exits, List.length_map, List.length_range, hs.exitCount]
  refine List.forall₂_iff_get.mpr ⟨hc.symm, fun i hi hi' => ?_⟩
  have he := hs.exits i _ (List.getElem?_eq_getElem hi)
  simpa [exits] using he

theorem toNat_mapWidth (h : g.InRoom level c) : g.level.mapWidth.toNat = level.width.toNat := by
  rw [h.image]
  exact hw.stands.toNat_mapWidth hw.fits.width

theorem toNat_mapHeight (h : g.InRoom level c) : g.level.mapHeight.toNat = level.height.toNat := by
  rw [h.image]
  exact hw.stands.toNat_mapHeight hw.fits.height

theorem beside_eq (h : g.Inside level c) (d : Direction) :
    d.beside level g.player.x.toNat g.player.y.toNat =
      if g.atEdge d then none else some ((g.nextCell d).1.toNat, (g.nextCell d).2.toNat) := by
  have hwi := toNat_mapWidth hw h.toInRoom
  have hh := toNat_mapHeight hw h.toInRoom
  have hw255 := hw.fits.width.2
  have hh255 := hw.fits.height.2
  cases d with
  | left =>
    by_cases hx : g.player.x.toNat = 0
    · have he : g.atEdge .left = true := beq_iff_eq.mpr (UInt8.toNat_inj.mp hx)
      rw [Direction.beside, if_pos hx, if_pos he]
    · have he : ¬g.atEdge .left = true := fun h0 => hx (congrArg UInt8.toNat (beq_iff_eq.mp h0))
      rw [Direction.beside, if_neg hx, if_neg he, nextCell, toNat_sub_one hx]
  | right =>
    by_cases hx : g.player.x.toNat + 1 < level.width.toNat
    · have he : ¬g.atEdge .right = true := fun h0 => by
        have := of_decide_eq_true h0
        omega
      rw [Direction.beside, if_pos hx, if_neg he, nextCell, toNat_add_one (by omega)]
    · have he : g.atEdge .right = true := decide_eq_true (by omega)
      rw [Direction.beside, if_neg hx, if_pos he]
  | up =>
    by_cases hy : g.player.y.toNat = 0
    · have he : g.atEdge .up = true := beq_iff_eq.mpr (UInt8.toNat_inj.mp hy)
      rw [Direction.beside, if_pos hy, if_pos he]
    · have he : ¬g.atEdge .up = true := fun h0 => hy (congrArg UInt8.toNat (beq_iff_eq.mp h0))
      rw [Direction.beside, if_neg hy, if_neg he, nextCell, toNat_sub_one hy]
  | down =>
    by_cases hy : g.player.y.toNat + 1 < level.height.toNat
    · have he : ¬g.atEdge .down = true := fun h0 => by
        have := of_decide_eq_true h0
        omega
      rw [Direction.beside, if_pos hy, if_neg he, nextCell, toNat_add_one (by omega)]
    · have he : g.atEdge .down = true := decide_eq_true (by omega)
      rw [Direction.beside, if_neg hy, if_pos he]

omit hw in
theorem beside_lt {d : Direction} {x y x' y' : Nat} (hx : x < level.width.toNat)
    (hy : y < level.height.toNat) (h : d.beside level x y = some (x', y')) :
    x' < level.width.toNat ∧ y' < level.height.toNat := by
  unfold Direction.beside at h
  split at h <;> split at h <;> simp only [reduceCtorEq, Option.some.injEq, Prod.mk.injEq] at h <;> omega

theorem cellSolid_isSolid (h : g.InRoom level c) {x y : UInt8} (hx : x.toNat < level.width.toNat)
    (hy : y.toNat < level.height.toNat) : g.CellSolid level x.toNat y.toNat (g.isSolid x y) := by
  have hwi := toNat_mapWidth hw h
  have hh := toNat_mapHeight hw h
  obtain ⟨room, hr, _⟩ := h.room
  obtain ⟨ids, hids, hre⟩ := hw.stands.readMap g.room.id.toNat_lt hr
  obtain ⟨id, hid⟩ := hids.exists_getElem? hx hy (Nat.le_refl _)
  refine ⟨room, ids, id, hr, hids, hid, ?_⟩
  rw [isSolid_eq h.source (by omega) (by omega), hwi, ← hre _ id hid, UInt8.ofNat_toNat, h.offsets,
    h.image]

theorem walk_spec (h : g.Inside level c) (d : Direction) :
    (g.walk d).Inside level c ∧ Ticks level g (g.walk d) (some d) := by
  have hb := beside_eq hw h d
  unfold walk
  split
  · rename_i hed
    rw [if_pos hed] at hb
    obtain ⟨room, hr, _⟩ := h.room
    have hf := find?_of_forall₂ (p := (·.liesAt d)) (q := (·.edge == d.edge))
      (exits_of_inRoom hw h.toInRoom hr) fun e record hex => hex.liesAt_eq d
    generalize he : room.exits.find? (·.liesAt d) = found,
      hre : g.exits.find? (·.edge == d.edge) = record at hf
    rw [tryExit, hre]
    cases hf with
    | none => exact ⟨h, .stops hb hr he rfl rfl⟩
    | some hex =>
      obtain ⟨hi, hs, hid, hid'⟩ := inside_enter hw h.image h.started hex.2
      refine ⟨hi, .leaves hb hr he ?_ hs⟩
      exact hid.symm ▸ hid'.symm ▸ hex.2
  · rename_i hed
    rw [if_neg hed] at hb
    obtain ⟨hx, hy⟩ := beside_lt h.x h.y hb
    have hso := cellSolid_isSolid hw h.toInRoom hx hy
    dsimp only
    split
    · rename_i hbl
      rw [hbl] at hso
      exact ⟨h, .bumps hb hso rfl rfl⟩
    · rename_i hfr
      rw [Bool.not_eq_true] at hfr
      rw [hfr] at hso
      exact ⟨⟨h.toInRoom.of_eq rfl rfl rfl, hx, hy, h.started⟩, .walks hb hso rfl rfl rfl⟩

omit hw in
theorem Ticks.of_readJoystick {j : Joystick} {pressed : Option Direction}
    (h : Ticks level (g.readJoystick j) g' pressed) : Ticks level g g' pressed := by
  cases h with
  | idle hr hp => exact .idle hr hp
  | walks hb hs hr hx hy => exact .walks hb hs hr hx hy
  | bumps hb hs hr hp => exact .bumps hb hs hr hp
  | leaves hb hr he hpl hsp => exact .leaves hb hr he hpl hsp
  | stops hb hr he hr' hp => exact .stops hb hr he hr' hp

theorem tick_spec (h : g.Inside level c) (j : Joystick) :
    (g.tick j).Inside level c ∧ Ticks level g (g.tick j) (g.readJoystick j).pressedDirection := by
  have hr : (g.readJoystick j).Inside level c := h.of_unmoved ⟨rfl, rfl, rfl, rfl⟩
  have hs : (g.readJoystick j).player.started = true := h.started
  rw [tick, updatePlayer, hs]
  cases hp : (g.readJoystick j).pressedDirection with
  | none => exact ⟨hr, .idle rfl rfl⟩
  | some d =>
    obtain ⟨hi, ht⟩ := walk_spec hw hr d
    exact ⟨hi, ht.of_readJoystick⟩

/-! Running scripts -/

theorem inside_act (h : g.Inside level c) {t : Action} {line : Nat} {raw : String} {i : Instruction}
    (hi : (t.compile level.ids line raw).Yields i) :
    ∃ g', g.act i.op i.a i.b = some g' ∧ g'.Inside level c := by
  cases t with
  | showMessage message =>
    simp only [Action.compile, yields_bind, yields_pure] at hi
    obtain ⟨n, _, rfl⟩ := hi
    refine ⟨_, rfl, ?_⟩
    unfold showText
    split <;> exact h.of_unmoved ⟨rfl, rfl, rfl, rfl⟩
  | setFlag name | clearFlag name | give name | take name =>
    simp only [Action.compile, yields_bind, yields_pure] at hi
    obtain ⟨n, _, rfl⟩ := hi
    exact ⟨_, rfl, h.of_unmoved ⟨rfl, rfl, rfl, rfl⟩⟩
  | setVar var value =>
    simp only [Action.compile, yields_bind, yields_pure] at hi
    obtain ⟨n, _, b, _, rfl⟩ := hi
    exact ⟨_, rfl, h.of_unmoved ⟨rfl, rfl, rfl, rfl⟩⟩
  | playSound sound =>
    simp only [Action.compile, yields_bind, yields_pure] at hi
    obtain ⟨b, _, rfl⟩ := hi
    exact ⟨g, rfl, h⟩
  | transition room spawn =>
    simp only [Action.compile, yields_bind, resolveId_yields] at hi
    obtain ⟨n, hn, hi⟩ := hi
    split at hi
    · rename_i m hm
      rw [yields_pure] at hi
      subst hi
      have hp := (isPlace_of_ids hw.keyed hn hm).toNat_byteOf hw.fits
      exact ⟨_, rfl, inRoom_loadRoom h.image hp, h.x, h.y, h.started⟩
    · simp at hi

/-- The code of a script, wherever it stands in the blob, keeps the player inside. -/
theorem actionsFrom_of_code {live : List (Nat × String)} {code : Bytes}
    (hc : Script.Compiles Action.Said
      (fun t i => ∃ line raw, (t.compile level.ids line raw).Yields i) live code)
    {fuel o : Nat} {base : UInt16} (h : g.Inside level c) (hat : c.blob.HoldsAt o code)
    (hba : base.toNat = o) (hf : code.length ≤ 3 * fuel) :
    ∃ g', actionsFrom fuel base g = some g' ∧ g'.Inside level c := by
  induction hc generalizing fuel o base g with
  | nil =>
    have ht : Instruction.stop.bytes.length = 3 := rfl
    obtain ⟨fuel, rfl⟩ : ∃ k, fuel = k + 1 := ⟨fuel - 1, by omega⟩
    have hat : c.blob.HoldsAt o (Instruction.stop.bytes ++ []) := hat
    obtain ⟨hop, _, _⟩ := fetch_of_holdsAt hw.length hat hba
    exact ⟨g, by simp [actionsFrom, h.image, hop, Instruction.stop, act], h⟩
  | blank _ _ ih => exact ih h hat hba hf
  | @step _ _ _ t i more _ hi _ ih =>
    obtain ⟨line, raw, hi⟩ := hi
    have ht : i.bytes.length = 3 := rfl
    rw [List.length_append, ht] at hf
    obtain ⟨fuel, rfl⟩ : ∃ k, fuel = k + 1 := ⟨fuel - 1, by omega⟩
    obtain ⟨g₁, hact, hin⟩ := inside_act hw h hi
    obtain ⟨hop, ha, hb⟩ := fetch_of_holdsAt hw.length hat hba
    obtain ⟨hr, hn⟩ := next_of_holdsAt hw.length hat hba
    have hf' : more.length ≤ 3 * fuel := by omega
    obtain ⟨g', hg', hl⟩ := ih hin hr hn hf'
    refine ⟨g', ?_, hl⟩
    simp only [actionsFrom, h.image, hop, ha, hb, hact]
    exact hg'

theorem runActions_inside (h : g.Inside level c) {name : String} {offset : Nat}
    (ho : c.layout.acts.offsets.get? name = some offset) :
    ∃ g', g.runActions (UInt16.ofNat offset) = some g' ∧ g'.Inside level c := by
  obtain ⟨lines, code, _, hc, hat, _⟩ := actionLines_holdsAt hw.keyed.acts hw.stands.acts ho
  have hb := hw.stands.actStream.trans hat
  have hend := hb.length_le
  have hlen := hw.length
  unfold runActions
  split
  · exact ⟨g, rfl, h⟩
  · have hba : (g.level.actStream + UInt16.ofNat offset).toNat = c.layout.actStream + offset := by
      have hof : (UInt16.ofNat offset).toNat = offset := toNat_uint16_ofNat (by omega)
      have hs := hw.stands.toNat_actStream hlen
      rw [h.image, toNat_add_of_lt (by omega), hs, hof]
    refine actionsFrom_of_code hw (Script.compiles_of_yields Action.says_readLine hc) h hb hba ?_
    simp only [codePlaces]
    omega

/-! Starting -/

theorem inside_initPlayer (h : g.InRoom level c) : g.initPlayer.Inside level c := by
  have hin := h.of_unmoved (unmoved_initSprite g)
  unfold initPlayer
  generalize g.initSprite = shown at hin
  obtain ⟨_, hx, hy⟩ := onSpawn_placeAtSpawn hw hin
  exact ⟨hin.of_eq rfl rfl rfl, hx, hy, rfl⟩

theorem inside_init (hl : g.level = c.image) : g.init.Inside level c := by
  have hr := (unmoved_prepared g).level.trans hl
  unfold init
  dsimp only at hr ⊢
  generalize initScreen _ = ready at hr
  have hp := hw.stands.start hw.keyed hw.fits
  rw [← hr] at hp
  exact inside_initPlayer hw
    ((inRoom_loadRoom hr hp).of_unmoved (redrawn_drawRoom _).unmoved)

end

/-- What can happen to a game that has been set up. -/
inductive Event where
  | tick (j : Joystick)
  | actions (offset : Nat)

def Event.Allowed (c : Compiled) : Event → Prop
  | .tick _ => True
  | .actions offset => ∃ name, c.layout.acts.offsets.get? name = some offset

/-- What follows from an event. None stands for code without end. -/
def happen (g : Game) : Event → Option Game
  | .tick j => some (g.tick j)
  | .actions offset => g.runActions (UInt16.ofNat offset)

theorem happen_inside {level : Level} {c : Compiled} {g : Game} (hw : level.Walkable c)
    (h : g.Inside level c) {event : Event} (he : event.Allowed c) :
    ∃ g', g.happen event = some g' ∧ g'.Inside level c := by
  cases event with
  | tick j => exact ⟨_, rfl, (tick_spec hw h j).1⟩
  | actions offset =>
    obtain ⟨name, ho⟩ := he
    exact runActions_inside hw h ho

theorem happen_all_inside {level : Level} {c : Compiled} {g : Game} (hw : level.Walkable c)
    (h : g.Inside level c) {events : List Event} (he : ∀ event ∈ events, event.Allowed c) :
    ∃ g', events.foldlM happen g = some g' ∧ g'.Inside level c := by
  induction events generalizing g with
  | nil => exact ⟨g, rfl, h⟩
  | cons event events ih =>
    rw [List.forall_mem_cons] at he
    obtain ⟨g₁, hg₁, hi⟩ := happen_inside hw h he.1
    obtain ⟨g', hg', hl⟩ := ih hi he.2
    exact ⟨g', by rw [List.foldlM_cons, hg₁]; exact hg', hl⟩

/-- A level that is compiled without an issue, that fits into its blob and whose spawn points lie inside its
map is walked through safely: from the start, whatever happens comes to an end, leaves the current room and
spawn point ones of the level and the player inside the map, and every tick stays in place, walks to a free
cell beside the player or takes the first exit at the edge. -/
theorem inside_of_events {level : Level} {c : Compiled} {g : Game} {i : Nat} (hk : level.Keyed)
    (hf : level.Fits) (hc : level.compile.Yields c) (hlen : c.blob.length ≤ 65535)
    (hspawns : ∀ room ∈ level.rooms.values, ∀ s ∈ room.spawns.values,
      0 ≤ s.x ∧ s.x < level.width ∧ 0 ≤ s.y ∧ s.y < level.height)
    (hi : g.shelf.level (.other i) = c.image) {events : List Event}
    (he : ∀ event ∈ events, event.Allowed c) :
    ∃ g', events.foldlM happen (g.choose i).init = some g' ∧ g'.Inside level c ∧
      ∀ j, Ticks level g' (g'.tick j) (g'.readJoystick j).pressedDirection := by
  have hs := stands_of_compile hc
  have hw : level.Walkable c := ⟨hk, hf, hs, hlen, hspawns⟩
  have hlevel : (g.choose i).level = c.image := by
    rw [choose, if_pos (by rw [hi]; exact hs.isValid)]
    exact hi
  obtain ⟨g', hg', hinside⟩ := happen_all_inside hw (inside_init hw hlevel) he
  exact ⟨g', hg', hinside, fun j => (tick_spec hw hinside j).2⟩

/-- Two rooms: an exit leads down from the first one, and a script back to it. -/
def gallery : Level where
  name := "gallery"
  width := 2
  height := 1
  startRoom := "hall"
  startSpawn := "door"
  line := 1
  tiles := [(".", 0)]
  acts := [("back", ⟨"back", [(3, "TRANSITION hall door")]⟩)]
  rooms :=
    [("hall", { id := "hall", name := "hall", line := 5, spawns := [("door", ⟨1, 0, 7⟩)]
                exits := [⟨"D", "cellar", "steps", 9⟩], map := [(11, "..")] }),
     ("cellar", { id := "cellar", name := "cellar", line := 14, spawns := [("steps", ⟨0, 0, 16⟩)]
                  map := [(19, "..")] })]

theorem gallery_keyed : gallery.Keyed :=
  ⟨by decide +kernel, by decide +kernel, by decide +kernel, by decide +kernel, by decide +kernel⟩

theorem gallery_fits : gallery.Fits := by
  have hr : ∀ room ∈ gallery.rooms.values, RoomFits gallery room := by
    intro room hr
    have ht : ∀ key, _ := tilesFit_of_tables (show ∀ id ∈ gallery.tiles.values, InByte id by decide)
      (by decide)
    simp only [gallery, Table.values, List.map_cons, List.map_nil, List.mem_cons, List.not_mem_nil,
      or_false] at hr
    rcases hr with rfl | rfl
    · exact ⟨by decide, by decide, by decide, by decide, by decide, fun _ _ _ _ => ht _⟩
    · exact ⟨by decide, by decide, by decide, by decide, by decide, fun _ _ _ _ => ht _⟩
  exact ⟨by decide, by decide, by decide, by decide, by decide, by decide, by decide, hr⟩

def galleryEvents : List Event :=
  [.tick { x := -1 }, .actions 3, .tick { y := 1 }]

theorem inside_of_events_gallery : ∃ c g', gallery.compile.Yields c ∧
    galleryEvents.foldlM happen (Game.init (Game.choose
      { shelf := { levels := [c.image] }, puzzle := .start {}, inventory := .empty } 0)) = some g' ∧
    g'.Inside gallery c ∧ ∀ j, Ticks gallery g' (g'.tick j) (g'.readJoystick j).pressedDirection := by
  have hcheck : gallery.compile.endsWith (fun c =>
      decide (c.blob.length ≤ 65535 ∧ c.layout.acts.offsets.get? "back" = some 3)) = true := by
    decide +kernel
  obtain ⟨c, hc, hblob⟩ := Report.exists_yields_of_endsWith hcheck
  obtain ⟨hlen, hoffset⟩ := of_decide_eq_true hblob
  have hallowed : ∀ event ∈ galleryEvents, event.Allowed c := by
    simp only [galleryEvents, List.forall_mem_cons]
    exact ⟨trivial, ⟨"back", hoffset⟩, trivial, by simp⟩
  obtain ⟨g', hg'⟩ := inside_of_events
    (g := { shelf := { levels := [c.image] }, puzzle := .start {}, inventory := .empty }) (i := 0)
    gallery_keyed gallery_fits hc hlen (by decide) rfl hallowed
  exact ⟨c, g', hc, hg'⟩

end Game

end EscapeRoom
