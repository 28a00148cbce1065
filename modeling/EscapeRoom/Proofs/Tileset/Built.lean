import EscapeRoom.Tileset.Read
import EscapeRoom.Proofs.CleanRuns
import EscapeRoom.Proofs.Numbering

/-!
# What reading a tileset builds

A tileset that is read without an issue is built up from its header by adding tiles, each under an id of
its own and with numbers that fit into the fields of its record.
-/

namespace EscapeRoom

open Report

/-- The numbers of a tile are in range. A tile of one colour has it in the first place. -/
structure Tile.Sound (t : Tile) : Prop where
  id : 0 ≤ t.id ∧ t.id ≤ 255
  chars : ∀ n ∈ t.chars.toList, 0 ≤ n ∧ n ≤ 255
  colors : ∀ n ∈ t.colors.toList, 0 ≤ n ∧ n ≤ 15
  single : t.colorMode = .single → t.colors = ⟨t.colors.topLeft, 0, 0, 0⟩
  flags : t.flags < 256

inductive Tileset.Built : Tileset → Prop
  | header {ts : Tileset} : ts.tiles = [] → ts.Built
  | tile {ts : Tileset} {t : Tile} : t.Sound → ts.tiles.get? t.id = none → ts.Built →
      Tileset.Built { ts with tiles := ts.tiles.put t.id t }
  | count {ts : Tileset} (declaredCount : Int) : ts.Built → Tileset.Built { ts with declaredCount }

namespace Report

variable {ι χ α : Type}

theorem yields_forIn {f : α → Report ι χ PUnit} {xs : List α} {u : PUnit} :
    (forIn xs PUnit.unit fun x _ => do f x; pure (.yield PUnit.unit)).Yields u ↔
      ∀ x ∈ xs, (f x).Yields ⟨⟩ := by
  induction xs with
  | nil => simp
  | cons x xs ih =>
    simp only [List.forIn_cons, bind_assoc, pure_bind, yields_bind, List.forall_mem_cons, ih]
    constructor
    · rintro ⟨⟨⟩, hx, hxs⟩
      exact ⟨hx, hxs⟩
    · rintro ⟨hx, hxs⟩
      exact ⟨⟨⟩, hx, hxs⟩

end Report

namespace Tileset

variable {line : Line} {d : Dialect} {s : Surroundings} {p p' : Progress} {ts : Tileset} {fields : Fields}
  {name : String}

theorem outside_eq_false {low high n : Int} : outside low high n = false ↔ low ≤ n ∧ n ≤ high := by
  simp [outside]

@[simp] theorem not_yields_reportAt {cause : Cause} {column : Nat} {u : Unit} :
    ¬(reportAt line cause column).Yields u :=
  not_yields_report _ _

theorem yields_reportAtIf {b : Bool} {cause : Cause} {column : Nat} {u : Unit} :
    (reportAtIf line b cause column).Yields u ↔ b = false :=
  yields_reportIf

theorem checkId_yields {id id' : Int} (h : (checkId line id).Yields id') :
    id' = id ∧ 0 ≤ id ∧ id ≤ 255 := by
  unfold checkId at h
  split at h
  · simp at h
  · rename_i hin
    rw [Bool.not_eq_true, outside_eq_false] at hin
    exact ⟨(yields_pure.mp h).symm, hin⟩

theorem readChars_yields {chars : Quad Int} (h : (readChars line fields).Yields chars) :
    ∀ n ∈ chars.toList, 0 ≤ n ∧ n ≤ 255 := by
  unfold readChars at h
  dsimp only at h
  split at h
  · simp at h
  · simp only [yields_bind, yields_forIn, yields_pure, yields_reportAtIf,
      outside_eq_false] at h
    obtain ⟨chars', _, _, hr, rfl⟩ := h
    exact hr

theorem readColors_yields {mode : ColorMode} {colors : Quad Int}
    (h : (readColors line d fields).Yields (mode, colors)) :
    (∀ n ∈ colors.toList, 0 ≤ n ∧ n ≤ 15) ∧
      (mode = .single → colors = ⟨colors.topLeft, 0, 0, 0⟩) := by
  unfold readColors at h
  split at h
  · simp only [pure_bind, yields_bind, yields_forIn, yields_pure, yields_reportAtIf,
      outside_eq_false, Prod.mk.injEq] at h
    obtain ⟨colors', _, _, hr, rfl, rfl⟩ := h
    exact ⟨hr, fun hm => by cases hm⟩
  · simp only [pure_bind, yields_bind, yields_forIn, yields_pure, yields_reportAtIf,
      outside_eq_false, Prod.mk.injEq] at h
    obtain ⟨color, _, _, hr, rfl, rfl⟩ := h
    exact ⟨hr, fun _ => rfl⟩
  · simp at h

theorem flagBit?_lt {bit : Nat} (h : flagBit? name = some bit) : bit < 8 :=
  (List.findIdx?_eq_some_iff_findIdx_eq.mp h).1

theorem readFlags_lt {mask : Nat} (h : (readFlags line fields).Yields mask) : mask < 256 := by
  refine Report.Yields.foldlM_induction (P := fun _ mask => mask < 256) h (by decide) ?_
  intro _ part _ mask mask' _ hm hs
  dsimp only at hs
  split at hs
  · exact yields_pure.mp hs ▸ hm
  · split at hs
    · rename_i bit hbit
      have hpow : 1 <<< bit < 2 ^ 8 := by
        rw [Nat.one_shiftLeft]
        exact Nat.pow_lt_pow_right (by decide) (flagBit?_lt hbit)
      exact yields_pure.mp hs ▸ Nat.or_lt_two_pow (n := 8) hm hpow
    · simp at hs

/-- What a header says: tiles of two by two characters, and three colours. -/
structure Headed (ts : Tileset) : Prop where
  size : ts.tileWidth = 2 ∧ ts.tileHeight = 2
  colors : ∀ n ∈ [ts.background, ts.multicolor1, ts.multicolor2], 0 ≤ n ∧ n ≤ 15

/-- What a line without an issue can do: it begins or ends a section, it begins a tileset, or it adds a tile
whose name and id are new, a map character that is new, or an object. -/
inductive Progress.Step (d : Dialect) (p : Progress) : Progress → Prop
  | part (part : Option Part) : p.Step d { p with part }
  | header {ts : Tileset} (draft : Draft) : ts.Headed → ts.tiles = [] →
      p.Step d { p with
        tileset := some ts
        names := if d.keepsNames then p.names else []
        draft }
  | tile {ts : Tileset} {t : Tile} (nextId : Int) (draft : Draft) : p.tileset = some ts → t.Sound →
      p.names.get? (nameKey t.name) = none → ts.tiles.get? t.id = none →
      p.Step d { p with
        tileset := some { ts with tiles := ts.tiles.put t.id t }
        names := p.names.put (nameKey t.name) t.id
        nextId
        draft }
  | charmap {e : CharmapEntry} : e.key.length = 1 → (∀ e' ∈ p.charmap, e'.key ≠ e.key) →
      p.Step d { p with charmap := p.charmap ++ [e] }
  | object (e : ObjectEntry) (draft : Draft) : p.Step d { p with objects := p.objects ++ [e], draft }

theorem addTile_step {id nextId : Int} (hts : p.tileset = some ts)
    (h : (addTile line d { p with nextId } ts id name fields).Yields p') : p.Step d p' := by
  simp only [addTile, yields_bind, yields_reportAtIf] at h
  obtain ⟨id', hid, chars, hc, ⟨mode, colors⟩, hco, flags, hf, _, hn, _, hnew, h⟩ := h
  obtain ⟨rfl, hr⟩ := checkId_yields hid
  rw [hn, hnew, Bool.or_false, if_neg Bool.false_ne_true, yields_pure] at h
  subst h
  obtain ⟨hcr, hs⟩ := readColors_yields hco
  have hso : Tile.Sound
      ⟨id', if name.isEmpty then "TILE_" ++ toString id' else name, chars, mode, colors, flags⟩ :=
    ⟨hr, readChars_yields hc, hcr, hs, readFlags_lt hf⟩
  exact .tile nextId _ hts hso (by simpa [Table.has] using hn) (by simpa [Table.has] using hnew)

theorem addSectionTile_yields (h : (addSectionTile line d p ts name).Yields p') :
    ∃ nextId id fields, (addTile line d { p with nextId } ts id name fields).Yields p' := by
  -- With or without an id of its own, the tile is added unless the id has too many digits.
  have hadd : ∀ {nextId id : Int} {fields : Fields},
      (if Nat.pow 10 Number.maxDigits ≤ id.natAbs then do
          Report.breakOff .idTooLong
          addTile line d { p with nextId } ts id name fields
        else addTile line d { p with nextId } ts id name fields).Yields p' →
      ∃ nextId id fields, (addTile line d { p with nextId } ts id name fields).Yields p' := by
    intro nextId id fields h
    split at h
    · simp at h
    · exact ⟨nextId, id, fields, h⟩
  unfold addSectionTile at h
  dsimp only at h
  split at h
  · rw [pure_bind] at h
    exact hadd h
  · rw [yields_bind] at h
    obtain ⟨_, _, h⟩ := h
    exact hadd h

theorem addLoneTile_yields (h : (addLoneTile line d p ts).Yields p') :
    ∃ nextId id name fields, (addTile line d { p with nextId } ts id name fields).Yields p' := by
  unfold addLoneTile at h
  dsimp only at h
  split at h
  · simp at h
  · split at h
    · simp only [pure_bind, yields_bind] at h
      obtain ⟨_, _, h⟩ := h
      exact ⟨_, _, _, _, h⟩
    · simp at h

theorem addCharmapEntry_step {parts : List String} (h : (addCharmapEntry line p parts).Yields p') :
    p.Step d p' := by
  simp only [addCharmapEntry, yields_bind, yields_reportAtIf] at h
  obtain ⟨_, _, _, hkey, h⟩ := h
  split at h
  · simp at h
  · simp only [yields_bind, yields_pure, yields_reportAtIf] at h
    obtain ⟨_, hnew, rfl⟩ := h
    exact .charmap (by simpa using hkey) (by simpa using hnew)

theorem readEntry_step {parts : List String} (hts : p.tileset = some ts)
    (h : (readEntry line d p ts parts).Yields p') : p.Step d p' := by
  unfold readEntry at h
  extract_lets head at h
  split at h
  · obtain ⟨_, _, _, h⟩ := addSectionTile_yields h
    exact addTile_step hts h
  · split at h
    · obtain ⟨_, _, _, _, h⟩ := addLoneTile_yields h
      exact addTile_step hts h
    · split at h
      · exact addCharmapEntry_step h
      · exact yields_pure.mp h ▸ .object _ _
      · simp [addStrayLine] at h

theorem readHeader_headed (h : (readHeader line d s fields).Yields ts) : ts.Headed ∧ ts.tiles = [] := by
  simp only [readHeader, yields_bind, yields_pure, yields_reportAtIf] at h
  obtain ⟨_, _, _, _, _, _, _, hs, _, _, background, _, multicolor1, _, multicolor2, _, _, hc, _, _,
    rfl⟩ := h
  simp only [yields_forIn, yields_reportAtIf, outside_eq_false, List.forall_mem_cons] at hc
  obtain ⟨hb, hmulticolor1, hmulticolor2, -⟩ := hc
  exact ⟨⟨by simpa using hs, by simp [hb, hmulticolor1, hmulticolor2]⟩, rfl⟩

theorem readLine_step (h : (readLine line d s p).Yields p') : p.Step d p' := by
  unfold readLine at h
  split at h
  · exact yields_pure.mp h ▸ .part none
  · extract_lets parts head at h
    split at h
    · simp only [yields_bind, yields_pure] at h
      obtain ⟨ts, hts, rfl⟩ := h
      obtain ⟨hh, hnil⟩ := readHeader_headed hts
      exact .header _ hh hnil
    · split at h
      · simp at h
      · rename_i ts hts
        rw [yields_bind] at h
        obtain ⟨_, _, h⟩ := h
        split at h
        · exact yields_pure.mp h ▸ .part _
        · exact readEntry_step hts h

theorem readLines_induction {P : Progress → Prop} {lines : List Line} (h : (readLines d s lines).Yields p)
    (init : P {}) (step : ∀ q q', P q → q.Step d q' → P q') : P p := by
  refine Report.Yields.foldlM_induction (P := fun _ p => P p) h init ?_
  intro _ line _ q q' _ hq hs
  exact step q q' hq (readLine_step hs)

/-- The tileset that is being read is built so far. -/
def Progress.Built (p : Progress) : Prop :=
  ∀ ts, p.tileset = some ts → ts.Built

theorem Progress.Step.built (hp : p.Built) (h : p.Step d p') : p'.Built := by
  cases h with
  | part part => exact hp
  | header draft _ hnil =>
    intro _ he
    exact Option.some.inj he ▸ .header hnil
  | tile nextId draft hts hs _ hf =>
    intro _ he
    exact Option.some.inj he ▸ .tile hs hf (hp _ hts)
  | charmap _ _ => exact hp
  | object e draft => exact hp

theorem readLines_built {lines : List Line} (h : (readLines d s lines).Yields p) : p.Built := by
  apply readLines_induction h
  · simp [Progress.Built]
  · intro q q' hq hs
    exact hs.built hq

theorem checkCount_checks (h : (checkCount s p).Yields ts) :
    ∃ ts', p.tileset = some ts' ∧ 0 < ts'.tiles.length ∧ ts'.tiles.length ≤ 255 ∧
      (ts'.tiles.length : Int) ≤ tileLimit ts' ∧ ts = { ts' with declaredCount := tileLimit ts' } := by
  unfold checkCount at h
  split at h
  · rename_i ts' hts'
    simp only [reportAtStart, pure_bind, yields_bind, yields_reportIf,
      decide_eq_false_iff_not] at h
    obtain ⟨_, hs, h⟩ := h
    split at h
    · simp at h
    · simp only [yields_bind, yields_pure, yields_reportIf, decide_eq_false_iff_not] at h
      obtain ⟨_, hde, _, hm, rfl⟩ := h
      exact ⟨ts', hts', Nat.pos_of_ne_zero hs, Nat.le_of_not_lt hm, Int.not_lt.mp hde, rfl⟩
  · simp [reportAtStart] at h

theorem checkCount_yields (hp : p.Built) (h : (checkCount s p).Yields ts) :
    ts.Built ∧ 0 < ts.tiles.length ∧ ts.tiles.length ≤ 255 := by
  obtain ⟨ts', hts', hs, hm, _, rfl⟩ := checkCount_checks h
  exact ⟨(hp ts' hts').count _, hs, hm⟩

theorem link_yields {e : CharmapEntry} {linked linked' : LinkedTileset}
    (h : (e.link linked).Yields linked') : linked'.toTileset = linked.toTileset := by
  unfold CharmapEntry.link at h
  split at h
  · exact yields_pure.mp h ▸ rfl
  · split at h
    · simp at h
    · split at h
      · simp at h
      · exact yields_pure.mp h ▸ rfl

theorem toTileset_of_links {entries : List CharmapEntry} {linked linked' : LinkedTileset}
    (h : (entries.foldlM (fun ts e => CharmapEntry.link e ts) linked).Yields linked') :
    linked'.toTileset = linked.toTileset := by
  refine Report.Yields.foldlM_induction (P := fun _ l => l.toTileset = linked.toTileset) h rfl ?_
  intro _ e _ l l' _ hl hs
  exact (link_yields hs).trans hl

/-- A tileset that is read without an issue is built, and its tiles can be counted by a byte. -/
theorem built_of_read {text : String} {linked : LinkedTileset} (h : (read s text).Yields linked) :
    linked.toTileset.Built ∧ 0 < linked.tiles.length ∧ linked.tiles.length ≤ 255 := by
  simp only [read, yields_bind, yields_pure] at h
  obtain ⟨p, hp, ts, hts, objects, _, linked', hl, stamps, _, rfl⟩ := h
  have hs : linked'.toTileset = ts := toTileset_of_links hl
  rw [hs]
  exact checkCount_yields (readLines_built hp) hts

/-! What all built tilesets have in common -/

theorem nodup_ids_of_built (h : ts.Built) : ts.tiles.keys.Nodup := by
  induction h with
  | header hnil => simp [hnil, Table.keys]
  | tile _ _ _ ih => exact Table.nodup_keys_put ih _ _
  | count _ _ ih => exact ih

theorem tiles_of_built (h : ts.Built) : ∀ e ∈ ts.tiles, e.2.id = e.1 ∧ e.2.Sound := by
  induction h with
  | header hnil => simp [hnil]
  | tile ht _ _ ih => exact Table.forall_mem_put ih ⟨rfl, ht⟩
  | count _ _ ih => exact ih

end Tileset

end EscapeRoom
