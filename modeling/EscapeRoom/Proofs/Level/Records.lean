import EscapeRoom.Proofs.Level.Streams

/-!
# What records hold

The records of exits and objects hold the numbers of the names that the level gives, and the parameters and
scripts of the objects.
-/

namespace EscapeRoom

open Report

theorem Table.get?_mapValues {κ ν μ : Type} [DecidableEq κ] (t : Table κ ν) (f : ν → μ) (k : κ) :
    Table.get? (t.map fun e => (e.1, f e.2)) k = (t.get? k).map f := by
  induction t with
  | nil => rfl
  | cons e t ih =>
    rw [List.map_cons, Table.get?_cons, Table.get?_cons, ih]
    split <;> rfl

theorem Table.getElem?_of_get? {κ ν : Type} [DecidableEq κ] {t : Table κ ν} (hn : t.keys.Nodup)
    {k : κ} {v : ν} {i : Nat} (hv : t.get? k = some v) (hi : t.keys[i]? = some k) :
    t[i]? = some (k, v) := by
  rw [Table.keys, List.getElem?_map, Option.map_eq_some_iff] at hi
  obtain ⟨⟨k', v'⟩, he, rfl⟩ := hi
  rw [Table.get?_of_mem hn (List.mem_of_getElem? he), Option.some.injEq] at hv
  exact hv ▸ he

namespace Level

variable {i j : Nat} {level : Level} {o : LevelObject} {p : UInt8 × UInt8} {room : Room}

structure Keyed (level : Level) : Prop where
  rooms : level.rooms.keys.Nodup
  spawns : ∀ room ∈ level.rooms.values, room.spawns.keys.Nodup
  messages : level.messages.keys.Nodup
  conds : level.conds.keys.Nodup
  acts : level.acts.keys.Nodup

theorem resolveId_yields {table : Table String Nat} {kind : IdKind} {name : String} {line id : Nat} :
    (resolveId table kind name line).Yields id ↔ table.get? name = some id := by
  unfold resolveId
  cases table.get? name <;> simp

/-- A room and one of its spawn points by their positions in the level. -/
def IsPlace (level : Level) (room spawn : String) (i j : Nat) : Prop :=
  ∃ r, level.rooms[i]? = some (room, r) ∧ r.spawns.keys[j]? = some spawn

theorem IsPlace.room_lt {room spawn : String} (h : level.IsPlace room spawn i j) : i < level.rooms.length := by
  obtain ⟨r, hr, _⟩ := h
  exact (List.getElem?_eq_some_iff.mp hr).1

theorem IsPlace.spawn_lt {room spawn : String}
    (h : level.IsPlace room spawn i j) : ∃ r ∈ level.rooms.values, j < r.spawns.length := by
  obtain ⟨r, hr, hs⟩ := h
  have hj := (List.getElem?_eq_some_iff.mp hs).1
  rw [Table.keys, List.length_map] at hj
  exact ⟨r, Table.mem_values (List.mem_of_getElem? hr), hj⟩

theorem IsPlace.unique (hk : level.Keyed) {room spawn : String} {i j i' j' : Nat}
    (h : level.IsPlace room spawn i j) (h' : level.IsPlace room spawn i' j') : i = i' ∧ j = j' := by
  obtain ⟨r, hr, hs⟩ := h
  obtain ⟨r', hr', hs'⟩ := h'
  have hi := ((numbered_iff_of_nodup hk.rooms).mpr (Table.getElem?_keys hr)).unique
    ((numbered_iff_of_nodup hk.rooms).mpr (Table.getElem?_keys hr'))
  subst hi
  rw [hr, Option.some.injEq, Prod.mk.injEq] at hr'
  rw [← hr'.2] at hs'
  have hn := hk.spawns r (Table.mem_values (List.mem_of_getElem? hr))
  exact ⟨rfl, ((numbered_iff_of_nodup hn).mpr hs).unique ((numbered_iff_of_nodup hn).mpr hs')⟩

theorem isPlace_of_ids (hk : level.Keyed) {room spawn : String}
    (hi : level.ids.rooms.get? room = some i) (hj : level.ids.spawn? room spawn = some j) :
    level.IsPlace room spawn i j := by
  rw [ids, Ids.get?_number, numbered_iff_of_nodup hk.rooms] at hi
  simp only [Ids.spawn?, ids] at hj
  rw [Table.get?_mapValues level.rooms fun room => Ids.number room.spawns.keys] at hj
  obtain ⟨spawns, hs, hj⟩ := Option.bind_eq_some_iff.mp hj
  obtain ⟨r, hr, rfl⟩ := Option.map_eq_some_iff.mp hs
  have hmem : r ∈ level.rooms.values := Table.mem_values (Table.mem_of_get? hr)
  rw [Ids.get?_number, numbered_iff_of_nodup (hk.spawns r hmem)] at hj
  exact ⟨r, Table.getElem?_of_get? hk.rooms hr hi, hj⟩

theorem startIds_yields (hk : level.Keyed) {start : Nat × Nat} (h : (startIds level.ids level).Yields start) :
    level.IsPlace level.startRoom level.startSpawn start.1 start.2 := by
  simp only [startIds, yields_bind, resolveId_yields] at h
  obtain ⟨room, hr, h⟩ := h
  split at h
  · rename_i spawn hs
    rw [yields_pure] at h
    exact h ▸ isPlace_of_ids hk hr hs
  · simp at h

/-- The record of an exit: the code of its edge and its destination. -/
def IsExit (level : Level) (e : Exit) (edge room spawn : Nat) : Prop :=
  exitEdges.get? e.edge = some edge ∧ level.IsPlace e.room e.spawn room spawn

theorem exitRecord_yields (hk : level.Keyed) {e : Exit}
    {record : Option Bytes} (h : (exitRecord level.ids room e).Yields record) :
    ∃ bytes, record = some bytes ∧ ∃ edge destination spawn : Nat,
      level.IsExit e edge destination spawn ∧
      bytes = [byteOf edge, byteOf destination, byteOf spawn] := by
  unfold exitRecord at h
  dsimp only at h
  split at h
  · simp at h
  · rename_i edge he
    split at h
    · simp at h
    · rename_i destination hde
      split at h
      · simp at h
      · rename_i spawn hs
        rw [yields_pure] at h
        exact ⟨_, h.symm, edge, destination, spawn, ⟨he, isPlace_of_ids hk hde hs⟩, rfl⟩

theorem exitBytes_yields (hk : level.Keyed) {bytes : Bytes} (h : (exitBytes level.ids room).Yields bytes) :
    ∃ records : List Bytes, bytes = byteOf room.exits.length :: records.flatten ∧
      List.Forall₂ (fun e record => ∃ edge destination spawn : Nat,
        level.IsExit e edge destination spawn ∧
        record = [byteOf edge, byteOf destination, byteOf spawn]) room.exits records := by
  simp only [exitBytes, yields_bind, yields_pure] at h
  obtain ⟨found, hf, rfl⟩ := h
  exact ⟨_, rfl, forall₂_filterMap_id (fun _ _ he => exitRecord_yields hk he)
    (yields_mapM.mp hf)⟩

theorem exitEdges_le {edge : String} {code : Nat} (h : exitEdges.get? edge = some code) : code ≤ 3 := by
  have hmem := Table.mem_of_get? h
  simp only [exitEdges, List.mem_cons, Prod.mk.injEq, List.not_mem_nil, or_false] at hmem
  omega

theorem objectTypes_le {name : String} {code : Nat} (h : objectTypes.get? name = some code) :
    code ≤ 7 := by
  have hmem := Table.mem_of_get? h
  simp only [objectTypes, List.mem_cons, Prod.mk.injEq, List.not_mem_nil, or_false] at hmem
  omega

/-- The first parameter of an object: the number of the item it gives or of the variable it sets, the
hundreds of a keypad code, or else what its property `p0` says. -/
inductive FirstParameter (level : Level) (o : LevelObject) : Int → Prop
  | item {item : String} {i : Nat} : o.typeName = "PICKUP" → o.props.get? "item" = some item →
      Numbered level.items item i → FirstParameter level o i
  | code {code : String} {n : Int} : o.typeName = "LOCKER_KEYPAD" → o.props.get? "code" = some code →
      Number.parseLiteral .decimal code = .ok n → 0 ≤ n → n ≤ 999 → FirstParameter level o (n / 100)
  | var {var : String} {i : Nat} : o.typeName = "BREAKER_PANEL" → o.props.get? "var" = some var →
      Numbered level.vars var i → FirstParameter level o i
  | plain {n : Int} : (o.typeName = "PICKUP" → o.props.get? "item" = none) →
      (o.typeName = "LOCKER_KEYPAD" → o.props.get? "code" = none) →
      (o.typeName = "BREAKER_PANEL" → o.props.get? "var" = none) →
      Number.parseLiteral .marked (o.props.getD "p0" "0") = .ok n → FirstParameter level o n

/-- The second parameter of an object: the rest of a keypad code, the expected breakers, or else what its
property `p1` says. -/
inductive SecondParameter (o : LevelObject) : Int → Prop
  | code {code : String} {n : Int} : o.typeName = "LOCKER_KEYPAD" → o.props.get? "code" = some code →
      Number.parseLiteral .decimal code = .ok n → 0 ≤ n → n ≤ 999 → SecondParameter o (n % 100)
  | expect {text : String} {n : Int} : o.typeName = "BREAKER_PANEL" →
      o.props.get? "expect" = some text → Number.parseLiteral .marked text = .ok n → 0 ≤ n → n ≤ 7 →
      SecondParameter o n
  | plain {n : Int} : (o.typeName = "LOCKER_KEYPAD" → o.props.get? "code" = none) →
      (o.typeName = "BREAKER_PANEL" → o.props.get? "expect" = none) →
      Number.parseLiteral .marked (o.props.getD "p1" "0") = .ok n → SecondParameter o n

theorem plainParameters_yields (h : (plainParameters room o).Yields p) :
    ∃ n m, Number.parseLiteral .marked (o.props.getD "p0" "0") = .ok n ∧
      Number.parseLiteral .marked (o.props.getD "p1" "0") = .ok m ∧ p = (byteOf n, byteOf m) := by
  unfold plainParameters at h
  split at h
  · rename_i n m hn hm
    rw [yields_pure] at h
    exact ⟨n, m, hn, hm, h.symm⟩
  · simp at h

theorem keypadParameters_yields {code : String} {p q : UInt8 × UInt8} (h : (keypadParameters room o code p).Yields q) :
    ∃ n, Number.parseLiteral .decimal code = .ok n ∧ 0 ≤ n ∧ n ≤ 999 ∧
      q = (byteOf (n / 100), byteOf (n % 100)) := by
  unfold keypadParameters at h
  split at h
  · simp at h
  · rename_i n hn
    split at h
    · rename_i hr
      rw [yields_pure] at h
      exact ⟨n, hn, hr.1, hr.2, h.symm⟩
    · simp at h

theorem breakerExpectation_yields {text : String} {p q : UInt8} (h : (breakerExpectation room o text p).Yields q) :
    ∃ n, Number.parseLiteral .marked text = .ok n ∧ 0 ≤ n ∧ n ≤ 7 ∧ q = byteOf n := by
  unfold breakerExpectation at h
  split at h
  · simp at h
  · rename_i n hn
    split at h
    · rename_i hr
      rw [yields_pure] at h
      exact ⟨n, hn, hr.1, hr.2, h.symm⟩
    · simp at h

theorem panelParameters_yields {p0 : UInt8} {m : Int} (ht : o.typeName = "BREAKER_PANEL")
    (hm : Number.parseLiteral .marked (o.props.getD "p1" "0") = .ok m)
    (h : Report.Yields (match o.props.get? "expect" with
      | some text => do
        let p1 ← breakerExpectation room o text (byteOf m)
        pure (p0, p1)
      | none => do
        let p1 ← pure (byteOf m)
        pure (p0, p1)) p) :
    ∃ j, SecondParameter o j ∧ p = (p0, byteOf j) := by
  have hk : o.typeName ≠ "LOCKER_KEYPAD" := by simp [ht]
  split at h
  · rename_i text hte
    simp only [yields_bind, yields_pure] at h
    obtain ⟨p1, hp1, rfl⟩ := h
    obtain ⟨j, hj, h₀, h₁, rfl⟩ := breakerExpectation_yields hp1
    exact ⟨j, .expect ht hte hj h₀ h₁, rfl⟩
  · rename_i hte
    simp only [yields_bind, yields_pure, exists_eq_left'] at h
    exact ⟨m, .plain (absurd · hk) (fun _ => hte) hm, h.symm⟩

theorem parameters_yields (h : (parameters level.ids room o).Yields p) :
    ∃ n m, FirstParameter level o n ∧ SecondParameter o m ∧ p = (byteOf n, byteOf m) := by
  simp only [parameters, yields_bind] at h
  obtain ⟨_, hp, h⟩ := h
  obtain ⟨n, m, hn, hm, rfl⟩ := plainParameters_yields hp
  dsimp only at h
  split at h
  · rename_i ht
    have hke : o.typeName ≠ "LOCKER_KEYPAD" := by simp [ht]
    have hpa : o.typeName ≠ "BREAKER_PANEL" := by simp [ht]
    split at h
    · rename_i item hit
      simp only [yields_bind, yields_pure, resolveId_yields, ids, Ids.get?_number] at h
      obtain ⟨i, hi, rfl⟩ := h
      exact ⟨i, m, .item ht hit hi, .plain (absurd · hke) (absurd · hpa) hm, rfl⟩
    · rename_i hit
      rw [yields_pure] at h
      exact ⟨n, m, .plain (fun _ => hit) (absurd · hke) (absurd · hpa) hn,
        .plain (absurd · hke) (absurd · hpa) hm, h.symm⟩
  · rename_i hpi
    split at h
    · rename_i ht
      have hpa : o.typeName ≠ "BREAKER_PANEL" := by simp [ht]
      split at h
      · rename_i code hc
        obtain ⟨k, hk, h₀, h₁, rfl⟩ := keypadParameters_yields h
        exact ⟨k / 100, k % 100, .code ht hc hk h₀ h₁, .code ht hc hk h₀ h₁, rfl⟩
      · rename_i hc
        rw [yields_pure] at h
        exact ⟨n, m, .plain (absurd · hpi) (fun _ => hc) (absurd · hpa) hn,
          .plain (fun _ => hc) (absurd · hpa) hm, h.symm⟩
    · rename_i hke
      split at h
      · rename_i ht
        split at h
        · rename_i var hvar
          simp only [yields_bind, yields_map, resolveId_yields, ids, Ids.get?_number] at h
          obtain ⟨_, ⟨_, ⟨i, hi, rfl⟩, rfl⟩, h⟩ := h
          obtain ⟨j, hj, rfl⟩ := panelParameters_yields ht hm h
          exact ⟨i, j, .var ht hvar hi, hj, rfl⟩
        · rename_i hvar
          simp only [yields_bind, yields_pure, exists_eq_left'] at h
          obtain ⟨j, hj, rfl⟩ := panelParameters_yields ht hm h
          exact ⟨n, j, .plain (absurd · hpi) (absurd · hke) (fun _ => hvar) hn, hj, rfl⟩
      · rename_i hpa
        rw [yields_pure] at h
        exact ⟨n, m, .plain (absurd · hpi) (absurd · hke) (absurd · hpa) hn,
          .plain (absurd · hke) (absurd · hpa) hm, h.symm⟩

end Level

/-- The names of the actions of an object, in the order of its record. -/
def LevelObject.actions (o : LevelObject) : List String :=
  [o.look, o.take, o.use, o.talk, o.operate, o.alt0, o.alt1]

namespace Level

def ObjectRecord.actions (r : ObjectRecord) : List Nat :=
  [r.look, r.take, r.use, r.talk, r.operate, r.alt0, r.alt1]

theorem ObjectRecord.length_bytes (r : ObjectRecord) : r.bytes.length = 22 := rfl

structure IsRecord (level : Level) (conds acts : Stream) (o : LevelObject) (r : ObjectRecord) :
    Prop where
  object : r.object = o
  typeCode : objectTypes.get? o.typeName = some r.typeCode
  first : ∃ n, FirstParameter level o n ∧ r.p0 = byteOf n
  second : ∃ n, SecondParameter o n ∧ r.p1 = byteOf n
  cond : Begins conds o.cond r.cond
  actions : List.Forall₂ (Begins acts) o.actions r.actions

theorem objectRecord_yields {level : Level} {conds acts : Stream} {room : Room} {o : LevelObject}
    {r : ObjectRecord} (h : (objectRecord level.ids conds acts room o).Yields (some r)) :
    IsRecord level conds acts o r := by
  unfold objectRecord at h
  split at h
  · simp at h
  · rename_i typeCode ht
    simp only [yields_bind, yields_pure, scriptOffset_yields, Option.some.injEq] at h
    obtain ⟨_, hp, cond, hc, look, hl, take, hta, use, huse, talk, htl, operate, ho,
      alt0, halt0, alt1, halt1, rfl⟩ := h
    obtain ⟨n, m, hn, hm, rfl⟩ := parameters_yields hp
    exact ⟨rfl, ht, ⟨n, hn, rfl⟩, ⟨m, hm, rfl⟩, hc,
      .cons hl (.cons hta (.cons huse (.cons htl (.cons ho (.cons halt0
        (.cons halt1 .nil))))))⟩

end Level

end EscapeRoom
