import EscapeRoom.Proofs.Level.Image
import EscapeRoom.Proofs.Level.Records

/-!
# Reading a compiled level back

A level whose numbers fit into the fields of a blob is read back from the image of its blob: the header,
and for every room its map, its spawn points, its exits and its objects with their scripts, and the
messages.
-/

namespace EscapeRoom

/-- An offset from the beginning of a stream leads to code of a script. -/
def LevelImage.LeadsTo (l : LevelImage) (stream offset : UInt16) (Code : Bytes → Prop) : Prop :=
  ∃ code, Code code ∧ l.memory.slice (stream + offset).toNat code.length = code

namespace Level

variable {level : Level} {room : Room}

def InByte (n : Int) : Prop :=
  0 ≤ n ∧ n ≤ 255

instance (n : Int) : Decidable (InByte n) :=
  inferInstanceAs (Decidable (0 ≤ n ∧ n ≤ 255))

/-- The numbers of a room fit into bytes: its counts, its cells, and the ids of the tiles that the
characters of its map stand for. -/
structure RoomFits (level : Level) (room : Room) : Prop where
  spawns : room.spawns.length ≤ 255
  exits : room.exits.length ≤ 255
  objects : room.objects.length ≤ 255
  spawnCells : ∀ s ∈ room.spawns.values, InByte s.x ∧ InByte s.y
  objectCells : ∀ o ∈ room.objects, InByte o.x ∧ InByte o.y
  tiles : ∀ row ∈ room.map, ∀ ch ∈ row.2.toList,
    (∀ id ∈ level.tiles.get? (String.singleton ch), InByte id) ∧
    ∀ stamp ∈ level.stamps.get? (String.singleton ch), ∀ id ∈ stamp.tiles, InByte id

/-- Whatever character a map shows, its tiles fit if all tiles of the level do. -/
theorem tilesFit_of_tables (ht : ∀ id ∈ level.tiles.values, InByte id)
    (hs : ∀ stamp ∈ level.stamps.values, ∀ id ∈ stamp.tiles, InByte id) (key : String) :
    (∀ id ∈ level.tiles.get? key, InByte id) ∧
      ∀ stamp ∈ level.stamps.get? key, ∀ id ∈ stamp.tiles, InByte id :=
  ⟨fun id hid => ht id (Table.mem_values (Table.mem_of_get? hid)),
    fun stamp hst => hs stamp (Table.mem_values (Table.mem_of_get? hst))⟩

structure Fits (level : Level) : Prop where
  rooms : level.rooms.length ≤ 255
  flags : level.flags.length ≤ 255
  vars : level.vars.length ≤ 255
  items : level.items.length ≤ 255
  messages : level.messages.length ≤ 255
  width : InByte level.width
  height : InByte level.height
  room : ∀ room ∈ level.rooms.values, RoomFits level room

/-- An object as the record at a base shows it. The kind, the verbs and the parameters are bytes; a script
that is not named has the offset zero. -/
structure ShowsObject (level : Level) (l : LevelImage) (o : LevelObject) (base : UInt16) : Prop where
  x : ((l.byte base).toNat : Int) = o.x
  y : ((l.byte (base + 1)).toNat : Int) = o.y
  type : objectTypes.get? o.typeName = some (l.byte (base + 2)).toNat
  verbs : (l.byte (base + 3)).toNat = o.verbs % 256
  first : ∃ n, FirstParameter level o n ∧ ((l.byte (base + 4)).toNat : Int) = n % 256
  second : ∃ n, SecondParameter o n ∧ ((l.byte (base + 5)).toNat : Int) = n % 256
  cond : if o.cond = "" then l.word (base + 6) = 0
    else l.LeadsTo l.condStream (l.word (base + 6)) (level.ConditionCode o.cond)
  actions : ∀ i name, o.actions[i]? = some name →
    if name = "" then l.word (base + 8 + 2 * UInt16.ofNat i) = 0
    else l.LeadsTo l.actStream (l.word (base + 8 + 2 * UInt16.ofNat i)) (level.ActionCode name)

structure ShowsRoom (level : Level) (l : LevelImage) (room : Room) (offsets : RoomOffsets) : Prop where
  map : ∃ ids, TileIds level room ids ∧
    (l.memory.slice offsets.map.toNat ids.length).map (fun b => (b.toNat : Int)) = ids
  spawnCount : (l.count offsets.spawns).toNat = room.spawns.length
  spawns : ∀ i s, room.spawns.values[i]? = some s →
    ((l.spawnAt offsets.spawns (UInt8.ofNat i)).1.toNat : Int) = s.x ∧
    ((l.spawnAt offsets.spawns (UInt8.ofNat i)).2.toNat : Int) = s.y
  exitCount : (l.count offsets.exits).toNat = room.exits.length
  exits : ∀ i e, room.exits[i]? = some e →
    let record := l.exitAt offsets.exits (UInt8.ofNat i)
    level.IsExit e record.edge.toNat record.room.toNat record.spawn.toNat
  objectCount : (l.count offsets.objects).toNat = room.objects.length
  objects : ∀ i o, room.objects[i]? = some o →
    ShowsObject level l o (LevelImage.objectBase offsets.objects (UInt8.ofNat i))

structure Shows (level : Level) (l : LevelImage) : Prop where
  valid : l.isValid = true
  roomCount : l.roomCount.toNat = level.rooms.length
  width : (l.mapWidth.toNat : Int) = level.width
  height : (l.mapHeight.toNat : Int) = level.height
  flagCount : l.flagCount.toNat = level.flags.length
  varCount : l.varCount.toNat = level.vars.length
  itemCount : (l.byte 10).toNat = level.items.length
  messageCount : (l.byte 11).toNat = level.messages.length
  start : level.IsPlace level.startRoom level.startSpawn l.startRoom.toNat l.startSpawn.toNat
  rooms : ∀ r id room, level.rooms[r]? = some (id, room) →
    ShowsRoom level l room (l.roomOffsets (UInt8.ofNat r))
  texts : (l.count l.messageTable).toNat = level.messages.length
  messages : ∀ i text, level.messages.values[i]? = some text →
    l.message (UInt8.ofNat i) = some ((messageBytes text).takeWhile (· != 0))

/-! Maps -/

theorem mem_of_charAt {x y : Nat} {ch : Char} (h : room.charAt x y = some ch) :
    ∃ row ∈ room.map, ch ∈ row.2.toList := by
  obtain ⟨row, hrow, hch⟩ := Option.bind_eq_some_iff.mp h
  exact ⟨row, List.mem_of_getElem? hrow, List.mem_of_getElem? hch⟩

theorem Tiling.inByte {blocks : List Block} {x y : Nat} {id : Int}
    (ht : Tiling level room blocks) (hf : RoomFits level room)
    (h : ShowsTile level room blocks x y id) : InByte id := by
  cases h with
  | tile hch _ hid =>
    obtain ⟨row, hrow, hmem⟩ := mem_of_charAt hch
    exact (hf.tiles row hrow _ hmem).1 id hid
  | @stamp b hb hxy =>
    have hs := ht.stands b hb
    obtain ⟨row, hrow, hmem⟩ := mem_of_charAt (hs.solid x y hxy)
    have hids := (hf.tiles row hrow _ hmem).2 b.stamp hs.stamp
    rw [Block.tileAt, List.getD_eq_getElem?_getD]
    cases hid : b.stamp.tiles[(y - b.y) * b.stamp.width.toNat + (x - b.x)]? with
    | none => exact ⟨Int.le_refl 0, by decide⟩
    | some id => exact hids id (List.mem_of_getElem? hid)

theorem TileIds.inByte {ids : List Int} (h : TileIds level room ids)
    (hf : RoomFits level room) : ∀ id ∈ ids, InByte id := by
  intro id hid
  obtain ⟨k, hk⟩ := List.mem_iff_getElem?.mp hid
  have hlt := (List.getElem?_eq_some_iff.mp hk).1
  rw [h.length] at hlt
  have hpos : 0 < level.width.toNat := Nat.pos_of_ne_zero fun h0 => by simp [h0] at hlt
  obtain ⟨blocks, ht, hs⟩ := h.tiled
  -- The cell with number `k` is in row `k / width`.
  obtain ⟨id', hid', hsh⟩ := hs (k % level.width.toNat) (k / level.width.toNat)
    (Nat.mod_lt k hpos) (Nat.div_lt_of_lt_mul hlt)
  rw [Nat.mul_comm, Nat.div_add_mod, hk, Option.some.injEq] at hid'
  exact hid' ▸ ht.inByte hf hsh

theorem map_toNat_byteOf {ids : List Int} (h : ∀ id ∈ ids, InByte id) :
    (ids.map byteOf).map (fun b => (b.toNat : Int)) = ids := by
  rw [List.map_map]
  exact (List.map_congr_left fun id hid => coe_toNat_byteOf_of_range (h id hid).1 (h id hid).2).trans
    (List.map_id ids)

/-! Records -/

section

variable {level : Level} {c : Compiled}

theorem byte_of_record {p : Bytes} {base : UInt16} {o : Nat} (hlen : c.blob.length ≤ 65535)
    (h : c.blob.HoldsAt o p) (hb : base.toNat = o) (d : UInt16) (hd : d.toNat < p.length) :
    c.image.byte (base + d) = p.getD d.toNat 0 := by
  have := h.length_le
  exact LevelImage.byte_of_holdsAt h hd (by rw [toNat_add_of_lt (by omega), hb])

theorem leadsTo_of_begins {Code : String → Bytes → Prop} {s : Stream} {start n : Nat}
    {stream word : UInt16} {name : String} (hlen : c.blob.length ≤ 65535)
    (hs : c.blob.HoldsAt start s.code) (ha : stream.toNat = start)
    (hco : ∀ {name offset}, s.offsets.get? name = some offset →
      ∃ code, Code name code ∧ s.code.HoldsAt offset code)
    (hn : Begins s name n) (hw : word.toNat = n % 65536) :
    if name = "" then word = 0 else c.image.LeadsTo stream word (Code name) := by
  unfold Begins at hn
  split at hn
  · rename_i he
    rw [if_pos he]
    exact UInt16.toNat_inj.mp (by rw [hw, hn]; rfl)
  · rename_i hna
    rw [if_neg hna]
    obtain ⟨code, hc, hat⟩ := hco hn
    have hb := hs.trans hat
    have := hb.length_le
    have had : (stream + word).toNat = start + n := by
      rw [toNat_add_of_lt (by omega), ha, hw]
      omega
    exact ⟨code, hc, by rw [had]; exact LevelImage.slice_of_holdsAt hb⟩

theorem showsObject_of_isRecord (hk : level.Keyed) (hs : Stands level c)
    (hlen : c.blob.length ≤ 65535) {o : LevelObject} {r : ObjectRecord}
    (hr : IsRecord level c.layout.conds c.layout.acts o r) {base : UInt16} {offset : Nat}
    (hat : c.blob.HoldsAt offset r.bytes) (hb : base.toNat = offset)
    (hc : InByte o.x ∧ InByte o.y) : ShowsObject level c.image o base := by
  have hend := hat.length_le
  rw [r.length_bytes] at hend
  have hby : ∀ d : UInt16, d.toNat < 22 → c.image.byte (base + d) = r.bytes.getD d.toNat 0 :=
    byte_of_record hlen hat hb
  have hw : c.blob.HoldsAt (offset + 6)
      (wordOf r.cond ++ r.actions.flatMap fun (n : Nat) => wordOf n) := hat.right
  have ha : ∀ d : UInt16, d.toNat < 22 → (base + d).toNat = offset + d.toNat := fun d hd => by
    rw [toNat_add_of_lt (by omega), hb]
  have ho := hr.object
  subst ho
  constructor
  · rw [← UInt16.add_zero base, hby 0 (by decide)]
    exact coe_toNat_byteOf_of_range hc.1.1 hc.1.2
  · rw [hby 1 (by decide)]
    exact coe_toNat_byteOf_of_range hc.2.1 hc.2.2
  · have hle := objectTypes_le hr.typeCode
    have ht : (c.image.byte (base + 2)).toNat = r.typeCode := by
      rw [hby 2 (by decide)]
      exact toNat_byteOf_natCast (by omega)
    rw [ht]
    exact hr.typeCode
  · have hv : ((c.image.byte (base + 3)).toNat : Int) = (r.object.verbs : Int) % 256 := by
      rw [hby 3 (by decide)]
      exact coe_toNat_byteOf r.object.verbs
    omega
  · obtain ⟨n, hn, hp⟩ := hr.first
    refine ⟨n, hn, ?_⟩
    rw [hby 4 (by decide), ← coe_toNat_byteOf, ← hp]
    rfl
  · obtain ⟨n, hn, hp⟩ := hr.second
    refine ⟨n, hn, ?_⟩
    rw [hby 5 (by decide), ← coe_toNat_byteOf, ← hp]
    rfl
  · exact leadsTo_of_begins hlen hs.condStream (hs.toNat_condStream hlen)
      (conditionCode_holdsAt hk.conds hs.conds) hr.cond
      (LevelImage.word_of_holdsAt hw.left (ha 6 (by decide)))
  · intro i name hi
    obtain ⟨n, hn, hbe⟩ := exists_getElem?_of_forall₂ hr.actions hi
    have hwo := hw.right.record (fun (n : Nat) _ => length_wordOf n) hn
    have hlt : i < 7 := (List.getElem?_eq_some_iff.mp hi).1
    have hb' : (base + 8 + 2 * UInt16.ofNat i).toNat = offset + 8 + 2 * i := by
      rw [UInt16.toNat_add, UInt16.toNat_mul, ha 8 (by decide), toNat_uint16_ofNat (by omega)]
      simp only [UInt16.reduceToNat]
      omega
    exact leadsTo_of_begins hlen hs.actStream (hs.toNat_actStream hlen)
      (actionCode_holdsAt hk.acts hs.acts) hbe (LevelImage.word_of_holdsAt hwo hb')

theorem IsPlace.toNat_byteOf {room spawn : String} {i j : Nat} (hf : level.Fits)
    (h : level.IsPlace room spawn i j) :
    level.IsPlace room spawn (byteOf i).toNat (byteOf j).toNat := by
  have hi := h.room_lt
  obtain ⟨r, hr, hj⟩ := h.spawn_lt
  have hro := hf.rooms
  have hs := (hf.room r hr).spawns
  rwa [toNat_byteOf_natCast (by omega), toNat_byteOf_natCast (by omega)]

theorem count_and_records {α : Type} {f : α → Bytes} {n : Nat} {xs : List α} {start : UInt16} {o : Nat}
    {count : UInt8} (hlen : c.blob.length ≤ 65535) (h : c.blob.HoldsAt o (count :: xs.flatMap f))
    (hn : ∀ x ∈ xs, (f x).length = n) (ho : start.toNat = o) (hxs : xs.length ≤ 255) (hpos : 0 < n) :
    c.image.count start = count ∧ ∀ (i : Nat) (x : α) (size : UInt16), xs[i]? = some x →
      size.toNat = n → c.blob.HoldsAt (o + 1 + n * i) (f x) ∧
        (start + 1 + (UInt8.ofNat i).toUInt16 * size).toNat = o + 1 + n * i := by
  refine ⟨LevelImage.byte_of_holdsAt h (i := 0) (by simp) ho, fun i x size hx hs => ?_⟩
  have hlt := (List.getElem?_eq_some_iff.mp hx).1
  have hr := h.tail.record hn hx
  have hend := hr.length_le
  rw [hn x (List.mem_of_getElem? hx)] at hend
  exact ⟨hr, toNat_recordAddress ho hs (toNat_uint8_ofNat (by omega)) (by omega)⟩

theorem showsRoom_of_stands (hk : level.Keyed) (hf : level.Fits) (hs : Stands level c)
    (hlen : c.blob.length ≤ 65535) {room : Room} {l : RoomLayout} (hro : RoomFits level room)
    (hr : RoomStands level c.layout.conds c.layout.acts c.blob room l) {offsets : RoomOffsets}
    (hmap : offsets.map.toNat = l.map) (hsp : offsets.spawns.toNat = l.spawns)
    (hex : offsets.exits.toNat = l.exits) (ho : offsets.objects.toNat = l.objects) :
    ShowsRoom level c.image room offsets := by
  obtain ⟨mapBytes, hmb, hma⟩ := hr.map
  obtain ⟨ids, hids, rfl⟩ := mapBytes_yields hmb
  obtain ⟨exitBytes, heb, hea⟩ := hr.exits
  obtain ⟨records, rfl, hre⟩ := exitBytes_yields hk heb
  rw [← List.flatMap_id] at hea
  have hrc := hre.length_eq
  have hoc := hr.records.length_eq
  obtain ⟨hsc, hsw⟩ := count_and_records hlen hr.spawns (n := 2) (fun _ _ => rfl) hsp
    (by rw [length_values]; exact hro.spawns) (by decide)
  obtain ⟨hec, het⟩ := count_and_records hlen hea (n := 3)
    (forall_mem_of_forall₂ hre fun _ _ _ ⟨_, _, _, _, he⟩ => by rw [he]; rfl) hex
    (hrc ▸ hro.exits) (by decide)
  obtain ⟨hc, hob⟩ := count_and_records hlen hr.objects (n := 22) (fun _ _ => rfl) ho
    (hoc ▸ hro.objects) (by decide)
  constructor
  · refine ⟨ids, hids, ?_⟩
    have hsl := LevelImage.slice_of_holdsAt hma
    rw [List.length_map, ← hmap] at hsl
    exact (congrArg _ hsl).trans (map_toNat_byteOf (hids.inByte hro))
  · rw [hsc, toNat_byteOf_natCast hro.spawns]
  · intro i s hi
    obtain ⟨hat, hb⟩ := hsw i s 2 hi rfl
    have hce := hro.spawnCells s (List.mem_of_getElem? hi)
    have h₀ : c.image.byte _ = byteOf s.x := LevelImage.byte_of_holdsAt hat (i := 0) (by simp) hb
    have h₁ : c.image.byte _ = byteOf s.y := byte_of_record hlen hat hb 1 (by simp)
    simp only [LevelImage.spawnAt, h₀, h₁]
    exact ⟨coe_toNat_byteOf_of_range hce.1.1 hce.1.2,
      coe_toNat_byteOf_of_range hce.2.1 hce.2.2⟩
  · rw [hec, toNat_byteOf_natCast hro.exits]
  · intro i e hi
    obtain ⟨record, hrr, edge, destination, spawn, hie, rfl⟩ :=
      exists_getElem?_of_forall₂ hre hi
    obtain ⟨hat, hb⟩ := het i _ 3 hrr rfl
    have hed := exitEdges_le hie.1
    have h₀ : c.image.byte _ = byteOf edge := LevelImage.byte_of_holdsAt hat (i := 0) (by simp) hb
    have h₁ : c.image.byte _ = byteOf destination := byte_of_record hlen hat hb 1 (by simp)
    have h₂ : c.image.byte _ = byteOf spawn := byte_of_record hlen hat hb 2 (by simp)
    simp only [LevelImage.exitAt, h₀, h₁, h₂]
    refine ⟨?_, hie.2.toNat_byteOf hf⟩
    rw [toNat_byteOf_natCast (by omega)]
    exact hie.1
  · rw [hc, toNat_byteOf_natCast hro.objects]
  · intro i o hi
    obtain ⟨r, hrr, hy⟩ := exists_getElem?_of_forall₂ hr.records hi
    obtain ⟨hat, hb⟩ := hob i r 22 hrr rfl
    exact showsObject_of_isRecord hk hs hlen (objectRecord_yields hy) hat hb
      (hro.objectCells o (List.mem_of_getElem? hi))

/-- A level that is compiled without an issue, whose numbers fit into bytes and whose blob into words, is
what the image of its blob shows. -/
theorem shows_of_compile (hk : level.Keyed) (hf : level.Fits) (h : level.compile.Yields c)
    (hlen : c.blob.length ≤ 65535) : level.Shows c.image := by
  have hs := stands_of_compile h
  obtain ⟨start, hstart, hbyte⟩ := hs.headerByte
  have hplace := (startIds_yields hk hstart).toNat_byteOf hf
  constructor
  · exact hs.isValid
  · exact (congrArg UInt8.toNat (hbyte 5 (by decide))).trans (toNat_byteOf_natCast hf.rooms)
  · rw [LevelImage.mapWidth, hbyte 6 (by decide)]
    exact coe_toNat_byteOf_of_range hf.width.1 hf.width.2
  · rw [LevelImage.mapHeight, hbyte 7 (by decide)]
    exact coe_toNat_byteOf_of_range hf.height.1 hf.height.2
  · rw [hs.flagCount, toNat_byteOf_natCast hf.flags]
  · rw [hs.varCount, toNat_byteOf_natCast hf.vars]
  · exact (congrArg UInt8.toNat (hbyte 10 (by decide))).trans (toNat_byteOf_natCast hf.items)
  · exact (congrArg UInt8.toNat (hbyte 11 (by decide))).trans (toNat_byteOf_natCast hf.messages)
  · rw [LevelImage.startRoom, LevelImage.startSpawn, hbyte 12 (by decide), hbyte 13 (by decide)]
    exact hplace
  · intro r id room hr
    have hlt := (List.getElem?_eq_some_iff.mp hr).1
    have hrooms := hf.rooms
    have hvalue := Table.getElem?_values hr
    obtain ⟨l, hl, hstands⟩ := exists_getElem?_of_forall₂ hs.rooms hvalue
    obtain ⟨hmap, hspawns, hexits, hobjects⟩ := hs.roomOffsets (by omega) hl
    exact showsRoom_of_stands hk hf hs hlen (hf.room room (List.mem_of_getElem? hvalue)) hstands hmap
      hspawns hexits hobjects
  · have hcount : c.image.count c.image.messageTable = byteOf level.messages.length :=
      LevelImage.byte_of_holdsAt hs.messageCount Nat.zero_lt_one (hs.toNat_messageTable hlen)
    rw [hcount, toNat_byteOf_natCast hf.messages]
  · exact fun i text hi => hs.message hlen hf.messages hi

end

/-- A level of two rooms: an exit leads from the first one, which shows a stamp, to the second one, where
there is a lamp to be taken. -/
def cellar : Level where
  name := "cellar"
  width := 2
  height := 1
  startRoom := "stairs"
  startSpawn := "top"
  line := 1
  tiles := [(".", 7)]
  stamps := [("S", ⟨"step", 2, 1, [200, 255], "S"⟩)]
  flags := ["taken"]
  items := ["key", "lamp"]
  messages := [("found", "It works.")]
  conds := [("ALWAYS", ⟨"ALWAYS", [(2, "TRUE")]⟩), ("there", ⟨"there", [(3, "FLAGCLR taken")]⟩)]
  acts := [("get", ⟨"get", [(5, "GIVE lamp"), (6, "SETFLAG taken"), (7, "MSG found")]⟩)]
  rooms :=
    [("stairs",
      { id := "stairs", name := "stairs", line := 10, spawns := [("top", ⟨0, 0, 11⟩)]
        exits := [⟨"D", "vault", "below", 12⟩], map := [(13, "SS")] }),
     ("vault",
      { id := "vault", name := "vault", line := 20, spawns := [("door", ⟨1, 0, 21⟩), ("below", ⟨0, 0, 22⟩)]
        objects :=
          [{ name := "lamp", x := 1, y := 0, typeName := "PICKUP", verbs := 2, line := 23
             props := [("item", "lamp")], cond := "there", take := "get", use := "NOOP" }]
        map := [(24, "..")] })]

theorem shows_of_compile_cellar : ∃ c, cellar.compile.Yields c ∧ cellar.Shows c.image := by
  have hcheck : cellar.compile.endsWith (fun c => decide (c.blob.length ≤ 65535)) = true := by
    decide +kernel
  obtain ⟨c, hc, hlen⟩ := Report.exists_yields_of_endsWith hcheck
  have hkeyed : cellar.Keyed :=
    ⟨by decide +kernel, by decide +kernel, by decide +kernel, by decide +kernel, by decide +kernel⟩
  have hroom : ∀ room ∈ cellar.rooms.values, RoomFits cellar room := by
    intro room hroom
    simp only [cellar, Table.values, List.map_cons, List.map_nil, List.mem_cons, List.not_mem_nil,
      or_false] at hroom
    rcases hroom with rfl | rfl
    · exact ⟨by decide, by decide, by decide, by decide, by decide,
        fun _ _ _ _ => tilesFit_of_tables (by decide) (by decide) _⟩
    · exact ⟨by decide, by decide, by decide, by decide, by decide,
        fun _ _ _ _ => tilesFit_of_tables (by decide) (by decide) _⟩
  have hfits : cellar.Fits :=
    ⟨by decide, by decide, by decide, by decide, by decide, by decide, by decide, hroom⟩
  exact ⟨c, hc, shows_of_compile hkeyed hfits hc (of_decide_eq_true hlen)⟩

end Level

end EscapeRoom
