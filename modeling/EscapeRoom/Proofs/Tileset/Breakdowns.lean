import EscapeRoom.Proofs.CollectingRuns
import EscapeRoom.Proofs.Numbering
import EscapeRoom.Proofs.Tileset.Results

/-!
# Where reading a tileset breaks off

Reading goes on after almost every issue that it reports. It breaks off at a map character without a name, at a line
that goes on with a tile before there is one, at a flag that it does not know, at a letter with several capital letters,
at a number that has too many digits to be written, and at a bound object with a tile that does not exist. There is
nothing else at which it does.
-/

namespace EscapeRoom

open Report

theorem mapM_eq_error {ε α β : Type} {f : α → Except ε β} {xs : List α} {e : ε} :
    xs.mapM f = .error e ↔ ∃ x, xs.find? (fun x => !(f x).isOk) = some x ∧ f x = .error e := by
  induction xs with
  | nil => simp [pure, Except.pure]
  | cons x xs ih =>
    rw [List.mapM_cons, List.find?_cons]
    cases hx : f x with
    | error e' => simp [hx, bind, Except.bind, Except.isOk, Except.toBool]
    | ok y =>
      rw [show (!(Except.ok y : Except ε β).isOk) = false from rfl]
      dsimp only
      rw [← ih]
      cases hxs : xs.mapM f with
      | error e' => simp [bind, Except.bind]
      | ok ys => simp [bind, Except.bind, pure, Except.pure]

theorem forall₂_imp_of_mem {α β : Type} {R S : α → β → Prop} {xs : List α} {ys : List β} (h : List.Forall₂ R xs ys)
    (himp : ∀ x y, y ∈ ys → R x y → S x y) : List.Forall₂ S xs ys := by
  induction h with
  | nil => exact .nil
  | cons hxy _ ih =>
    exact .cons (himp _ _ List.mem_cons_self hxy) (ih fun x y hy => himp x y (List.mem_cons_of_mem _ hy))

theorem Table.put_eq_map {κ ν : Type} [DecidableEq κ] {t : Table κ ν} {k : κ} (hn : t.keys.Nodup) (hk : k ∈ t.keys)
    (v : ν) : t.put k v = t.map fun e => if e.1 = k then (k, v) else e := by
  induction t with
  | nil => simp [keys] at hk
  | cons e t ih =>
    rw [keys_cons, List.nodup_cons] at hn
    rw [put, List.map_cons]
    split
    · rename_i he
      have hr : ∀ e' ∈ t, (if e'.1 = k then (k, v) else e') = e' := by
        intro e' he'
        rw [if_neg]
        rintro rfl
        exact hn.1 (List.mem_map.mpr ⟨e', he', he.symm⟩)
      rw [List.map_congr_left hr, List.map_id']
    · rename_i he
      rw [keys_cons, List.mem_cons] at hk
      rw [ih hn.2 (hk.resolve_left (Ne.symm he))]

namespace Tileset

variable {line : Line} {d : Dialect} {s : Surroundings} {p : Progress} {ts : Tileset} {fields : Fields} {b : Breakdown}
  {cause : Cause} {done : List CharmapEntry} {names : Table String Int} {objects : List ObjectDef} {text : String}
  {x : CharmapEntry}

/-! Values -/

theorem parseNumber_ne_wideLetter (text : String) (n : Nat) : parseNumber text ≠ .error (.wideLetter n) := by
  unfold parseNumber
  dsimp only
  split
  all_goals
    intro h
    rename_i digits
    revert h
    cases Number.parseLiteral _ _ <;> simp [Except.mapError]

theorem parseColor_ne_wideLetter (names : Table String Int) (text : String) (n : Nat) :
    parseColor names text ≠ .error (.wideLetter n) := by
  unfold parseColor
  dsimp only
  split
  · simp
  · exact parseNumber_ne_wideLetter _ n

/-- A screen code is given by a letter that has several capital letters. -/
def IsWideLetter (code : String) (n : Nat) : Prop :=
  ∃ c, (Text.trim code).toList = [c] ∧ Text.isLetter c = true ∧ (Text.upperChar c).length = n ∧ n ≠ 1

theorem parseScreenCode_eq_wideLetter {code : String} {n : Nat} :
    parseScreenCode code = .error (.wideLetter n) ↔ IsWideLetter code n := by
  unfold parseScreenCode IsWideLetter
  dsimp only
  split
  · rename_i c hc
    split
    · rename_i hl
      split
      · rename_i u hu
        simp [hc, hu]
        omega
      · rename_i us hus
        have hle : (Text.upperChar c).length ≠ 1 := by
          intro h
          obtain ⟨u, hu⟩ := List.length_eq_one_iff.mp h
          exact hus u hu
        simp only [Except.error.injEq, ValueError.wideLetter.injEq, hc, List.cons.injEq, and_true]
        constructor
        · rintro rfl
          exact ⟨c, rfl, hl, rfl, hle⟩
        · rintro ⟨c', rfl, -, rfl, -⟩
          rfl
    · rename_i hl
      simp [parseNumber_ne_wideLetter, hc, hl]
  · rename_i hc
    simp only [parseNumber_ne_wideLetter, false_iff]
    rintro ⟨c, hc', -⟩
    exact hc c hc'

theorem parseQuad_eq_wideLetter {parse : String → Except ValueError Int} {n : Nat} :
    parseQuad parse text = .error (.wideLetter n) ↔ (Text.parts ',' text).length = 4 ∧
      ∃ code, ((Text.parts ',' text).map Text.trim).find? (fun t => !(parse t).isOk) = some code ∧
        parse code = .error (.wideLetter n) := by
  rw [← mapM_eq_error]
  unfold parseQuad parseList
  dsimp only
  by_cases hl : (Text.parts ',' text).length = 4
  · rw [if_neg (by simp [hl])]
    cases ((Text.parts ',' text).map Text.trim).mapM parse with
    | error e => simp [hl]
    | ok values => cases hq : Quad.ofList? values <;> simp [hq]
  · rw [if_pos (by rw [List.length_map]; omega)]
    simp [hl]

theorem valueOr_breaksOff {α : Type} {parsed : Except ValueError α} {instead : α} {issue : ValueError → Issue} :
    (valueOr parsed instead issue).BreaksOff b ↔ ∃ n, parsed = .error (.wideLetter n) ∧ b = .wideLetter n := by
  unfold valueOr
  split
  · simp
  · simp [eq_comm]
  · rename_i e he
    simp only [breaksOff_bind, not_breaksOff_report, not_breaksOff_pure, and_false, exists_false,
      or_false, Except.error.injEq, false_iff]
    rintro ⟨n, rfl, -⟩
    exact he n rfl

@[simp] theorem not_breaksOff_reportAt {column : Nat} : ¬(reportAt line cause column).BreaksOff b :=
  not_breaksOff_report _ _

theorem not_breaksOff_reportAtIf {c : Bool} {column : Nat} : ¬(reportAtIf line c cause column).BreaksOff b :=
  not_breaksOff_reportIf _ _ _

/-! Tiles -/

/-- Among four screen codes, the first that cannot be read is a letter with several capital letters. -/
def WideLetterIn (fields : Fields) (n : Nat) : Prop :=
  ∃ text code, fields.get? "chars" = some text ∧ (Text.parts ',' text).length = 4 ∧
    ((Text.parts ',' text).map Text.trim).find? (fun t => !(parseScreenCode t).isOk) = some code ∧
    IsWideLetter code n

theorem readChars_breaksOff : (readChars line fields).BreaksOff b ↔ ∃ n, WideLetterIn fields n ∧ b = .wideLetter n := by
  unfold readChars WideLetterIn
  dsimp only
  cases ht : fields.get? "chars" with
  | none => simp [not_breaksOff_reportAtIf, not_breaksOff_foldlM]
  | some text =>
    simp [valueOr_breaksOff, not_breaksOff_reportAtIf, not_breaksOff_foldlM, parseQuad_eq_wideLetter,
      parseScreenCode_eq_wideLetter]

theorem not_breaksOff_readColors : ¬(readColors line d fields).BreaksOff b := by
  have hq : ∀ text n, parseQuad (parseColor d.colors) text ≠ .error (.wideLetter n) := by
    intro text n h
    obtain ⟨-, code, -, hc⟩ := parseQuad_eq_wideLetter.mp h
    exact parseColor_ne_wideLetter _ code n hc
  unfold readColors
  split
  · simp [valueOr_breaksOff, hq, not_breaksOff_reportAtIf, not_breaksOff_foldlM]
  · simp [valueOr_breaksOff, parseColor_ne_wideLetter, not_breaksOff_reportAtIf, not_breaksOff_foldlM]
  · simp [not_breaksOff_reportAtIf, not_breaksOff_foldlM]

def flagNames (fields : Fields) : List String :=
  ((Text.parts '|' (fields.getD "flags" "")).map fun part => Text.upper (Text.trim part)).filter fun name =>
    !name.isEmpty

theorem readFlags_breaksOff : (readFlags line fields).BreaksOff b ↔
    ∃ name, (flagNames fields).find? (fun name => (flagBit? name).isNone) = some name ∧ b = .unknownFlag name := by
  unfold readFlags flagNames
  generalize Text.parts '|' (fields.getD "flags" "") = parts
  generalize 0 = mask
  induction parts generalizing mask with
  | nil => simp
  | cons part parts ih =>
    rw [List.foldlM_cons, List.map_cons]
    dsimp only
    by_cases he : (Text.upper (Text.trim part)).isEmpty
    · rw [if_pos he, pure_bind, ih, List.filter_cons_of_neg (by simp [he])]
    · rw [if_neg he, List.filter_cons_of_pos (by simp [he]), List.find?_cons]
      cases hbit : flagBit? (Text.upper (Text.trim part)) with
      | some bit =>
        dsimp only
        rw [pure_bind, ih]
        rfl
      | none =>
        simp only [reportAt, breaksOff_bind, not_breaksOff_report, returns_report,
          breaksOff_breakOff, not_returns_breakOff, returns_bind, Option.isNone_none,
          Option.some.injEq, and_false, false_and, exists_false, true_and, exists_const, or_false, false_or,
          exists_eq_left']
        exact eq_comm

/-- What is wrong with the fields of a tile, so that it cannot be read any further. -/
inductive TileFault (fields : Fields) : Breakdown → Prop
  | wideLetter {n : Nat} : WideLetterIn fields n → TileFault fields (.wideLetter n)
  | unknownFlag {name : String} : (∀ n, ¬WideLetterIn fields n) →
      (flagNames fields).find? (fun name => (flagBit? name).isNone) = some name → TileFault fields (.unknownFlag name)

theorem not_breaksOff_checkId {id : Int} : ¬(checkId line id).BreaksOff b := by
  unfold checkId
  split <;> simp

theorem addTile_breaksOff {id : Int} {name : String} :
    (addTile line d p ts id name fields).BreaksOff b ↔ TileFault fields b := by
  unfold addTile
  refine breaksOff_bind_right (fun _ => not_breaksOff_checkId) fun id' => ?_
  dsimp only
  generalize (if name.isEmpty then "TILE_" ++ toString id' else name) = name'
  rw [breaksOff_bind_of_forall (P := (readFlags line fields).BreaksOff b)]
  · simp only [readChars_breaksOff, readFlags_breaksOff, not_exists, not_and]
    constructor
    · rintro (⟨n, hn, rfl⟩ | ⟨hno, name, hna, rfl⟩)
      · exact .wideLetter hn
      · exact .unknownFlag (fun n hn => hno _ n hn rfl) hna
    · rintro (hn | ⟨hno, hna⟩)
      · exact .inl ⟨_, hn, rfl⟩
      · exact .inr ⟨fun _ n hn => absurd hn (hno n), _, hna, rfl⟩
  · intro chars
    refine breaksOff_bind_right (fun _ => not_breaksOff_readColors) fun colors => ?_
    refine breaksOff_bind_left fun flags => ?_
    simp only [breaksOff_bind, not_breaksOff_reportAtIf, false_or, not_exists, not_and]
    intro _ _ _ _
    split <;> exact not_breaksOff_pure _ _

/-- The id of a tile in the section of tiles: the one that it gives, or else the next one. -/
def sectionId (nextId : Int) (fields : Fields) : Int :=
  ((fields.get? "id").bind fun text => (parseNumber text).toOption).getD nextId

def TooLong (n : Int) : Prop :=
  Nat.pow 10 Number.maxDigits ≤ n.natAbs

theorem breaksOff_of_tooLong {α : Type} {n : Int} {m : Reading α} :
    (if Nat.pow 10 Number.maxDigits ≤ n.natAbs then (Report.breakOff .idTooLong : Reading Unit) >>= fun _ => m
      else m).BreaksOff b ↔ TooLong n ∧ b = .idTooLong ∨ ¬TooLong n ∧ m.BreaksOff b := by
  unfold TooLong
  split
  · rename_i hn
    simp only [hn, breaksOff_bind, breaksOff_breakOff, not_returns_breakOff, false_and,
      exists_false, or_false, true_and, not_true]
    exact eq_comm
  · rename_i hn
    simp only [hn, false_and, not_false_iff, true_and, false_or]

theorem valueOr_returns {instead : Int} {issue : ValueError → Issue} :
    (valueOr (parseNumber text) instead issue).Returns ((parseNumber text).toOption.getD instead) := by
  unfold valueOr
  split
  · rename_i id hid
    simp [hid, Except.toOption]
  · rename_i n hn
    exact absurd hn (parseNumber_ne_wideLetter text n)
  · rename_i e _ he
    simp [he, Except.toOption]

/-- The fields of a line in the section of tiles: what follows the name. -/
def sectionFields (line : Line) : Fields :=
  Fields.scan (Text.trim (Text.dropChars ((Text.words line.text).headD "").length line.text))

theorem addSectionTile_breaksOff :
    (addSectionTile line d p ts ((Text.words line.text).headD "")).BreaksOff b ↔
      TooLong (sectionId p.nextId (sectionFields line)) ∧ b = .idTooLong ∨
      ¬TooLong (sectionId p.nextId (sectionFields line)) ∧ TileFault (sectionFields line) b := by
  unfold addSectionTile
  rw [← sectionFields]
  generalize sectionFields line = fields
  dsimp only
  cases hid : fields.get? "id" with
  | none =>
    have hs : sectionId p.nextId fields = p.nextId := by simp [sectionId, hid]
    dsimp only
    rw [hs, pure_bind, ← addTile_breaksOff, ← breaksOff_of_tooLong]
  | some text =>
    have hs : sectionId p.nextId fields = (parseNumber text).toOption.getD p.nextId := by simp [sectionId, hid]
    dsimp only
    rw [hs, valueOr_returns.breaksOff_bind, ← addTile_breaksOff, ← breaksOff_of_tooLong]

theorem addLoneTile_breaksOff :
    (addLoneTile line d p ts).BreaksOff b ↔ TileFault (Fields.scan line.text) b := by
  have hadd : ∀ (id nextId : Int), (do
      let id ← checkId line id
      addTile line d { p with nextId } ts id (Table.getD (Fields.scan line.text) "name" ("TILE_" ++ toString id))
        (Fields.scan line.text) : Reading Progress).BreaksOff b ↔ TileFault (Fields.scan line.text) b := fun _ _ =>
    breaksOff_bind_right (fun _ => not_breaksOff_checkId) fun _ => addTile_breaksOff
  unfold addLoneTile
  dsimp only
  split
  · exact breaksOff_bind_right (fun _ => not_breaksOff_reportAt) fun _ => hadd ..
  · split
    · exact hadd ..
    · exact breaksOff_bind_right (fun _ => not_breaksOff_reportAt) fun _ => hadd ..

theorem addCharmapEntry_breaksOff {parts : List String} :
    (addCharmapEntry line p parts).BreaksOff b ↔ parts.length < 2 ∧ b = .noTileName := by
  unfold addCharmapEntry
  dsimp only
  refine breaksOff_bind_right (fun _ => not_breaksOff_reportAtIf) fun _ => ?_
  refine breaksOff_bind_right (fun _ => not_breaksOff_reportAtIf) fun _ => ?_
  cases ht : parts[1]? with
  | none =>
    have hl : parts.length < 2 := by
      have := List.getElem?_eq_none_iff.mp ht
      omega
    simp [hl, eq_comm]
  | some target =>
    have hl : ¬parts.length < 2 := by
      have := (List.getElem?_eq_some_iff.mp ht).1
      omega
    simp [hl, not_breaksOff_reportAtIf]

theorem addStrayLine_breaksOff : (addStrayLine line d p ts).BreaksOff b ↔
    p.draft.id = none ∧ b = .noTileYet ∨ p.draft.id.isSome = true ∧ TileFault p.draft.fields b := by
  unfold addStrayLine
  refine breaksOff_bind_right (fun _ => not_breaksOff_reportAt) fun _ => ?_
  cases p.draft.id with
  | none => simp [eq_comm]
  | some id => simp [addTile_breaksOff]

/-! Lines -/

/-- What is wrong with a line of a section, or outside all sections, so that it cannot be read any further. -/
inductive EntryFault (p : Progress) (line : Line) : Breakdown → Prop
  | noTileName : p.part = some .charmap → (Text.words line.text).headD "" ≠ "TILE" →
      (Text.words line.text).length < 2 → EntryFault p line .noTileName
  | noTileYet : p.part = none → (Text.words line.text).headD "" ≠ "TILE" → p.draft.id = none →
      EntryFault p line .noTileYet
  | strayLine {b : Breakdown} : p.part = none → (Text.words line.text).headD "" ≠ "TILE" → p.draft.id.isSome = true →
      TileFault p.draft.fields b → EntryFault p line b
  | loneTile {b : Breakdown} : p.part ≠ some .tiles → (Text.words line.text).headD "" = "TILE" →
      TileFault (Fields.scan line.text) b → EntryFault p line b
  | idTooLong : p.part = some .tiles → TooLong (sectionId p.nextId (sectionFields line)) → EntryFault p line .idTooLong
  | sectionTile {b : Breakdown} : p.part = some .tiles → ¬TooLong (sectionId p.nextId (sectionFields line)) →
      TileFault (sectionFields line) b → EntryFault p line b

theorem readEntry_breaksOff : (readEntry line d p ts (Text.words line.text)).BreaksOff b ↔ EntryFault p line b := by
  unfold readEntry
  dsimp only
  constructor
  · intro h
    split at h
    · rename_i ht
      rcases addSectionTile_breaksOff.mp h with ⟨hl, rfl⟩ | ⟨hl, hf⟩
      · exact .idTooLong ht hl
      · exact .sectionTile ht hl hf
    · rename_i ht
      split at h
      · rename_i hh
        exact .loneTile ht hh (addLoneTile_breaksOff.mp h)
      · rename_i hh
        split at h
        · rename_i hpa
          obtain ⟨hle, rfl⟩ := addCharmapEntry_breaksOff.mp h
          exact .noTileName hpa hh hle
        · simp at h
        · rename_i hc ho
          have hpa : p.part = none := by
            cases hp : p.part with
            | none => rfl
            | some part => cases part <;> simp_all
          rcases addStrayLine_breaksOff.mp h with ⟨hid, rfl⟩ | ⟨hid, hf⟩
          · exact .noTileYet hpa hh hid
          · exact .strayLine hpa hh hid hf
  · intro h
    cases h with
    | noTileName hpa hh hle =>
      rw [if_neg (by simp [hpa]), if_neg hh, hpa]
      exact addCharmapEntry_breaksOff.mpr ⟨hle, rfl⟩
    | noTileYet hpa hh hid =>
      rw [if_neg (by simp [hpa]), if_neg hh, hpa]
      exact addStrayLine_breaksOff.mpr (.inl ⟨hid, rfl⟩)
    | strayLine hpa hh hid hf =>
      rw [if_neg (by simp [hpa]), if_neg hh, hpa]
      exact addStrayLine_breaksOff.mpr (.inr ⟨hid, hf⟩)
    | loneTile hpa hh hf =>
      rw [if_neg hpa, if_pos hh]
      exact addLoneTile_breaksOff.mpr hf
    | idTooLong hpa hl =>
      rw [if_pos hpa]
      exact addSectionTile_breaksOff.mpr (.inl ⟨hl, rfl⟩)
    | sectionTile hpa hl hf =>
      rw [if_pos hpa]
      exact addSectionTile_breaksOff.mpr (.inr ⟨hl, hf⟩)

theorem not_breaksOff_readSizeTexts : ¬(readSizeTexts line fields).BreaksOff b := by
  unfold readSizeTexts
  simp only [breaksOff_bind, not_breaksOff_reportAtIf, false_or, not_exists, not_and]
  intro _ _
  split <;> simp

theorem not_breaksOff_readCount : ¬(readCount line fields).BreaksOff b := by
  unfold readCount
  split <;> simp [valueOr_breaksOff, parseNumber_ne_wideLetter]

theorem not_breaksOff_readSizeNumbers {size width height : String} :
    ¬(readSizeNumbers line size width height).BreaksOff b := by
  unfold readSizeNumbers
  split <;> simp

theorem not_breaksOff_readCharset : ¬(readCharset line s fields).BreaksOff b := by
  unfold readCharset
  split <;> simp [not_breaksOff_reportAtIf]

theorem not_breaksOff_readHeader : ¬(readHeader line d s fields).BreaksOff b := by
  have hc : ∀ color c, ¬(readSharedColor line d fields color).BreaksOff c := by
    intro color c
    simp [readSharedColor, valueOr_breaksOff, parseColor_ne_wideLetter]
  unfold readHeader
  simp [not_breaksOff_readSizeTexts, not_breaksOff_readCount, not_breaksOff_readSizeNumbers, hc,
    not_breaksOff_readCharset, not_breaksOff_reportAtIf]

/-- Only a line with an entry can be wrong in this way, behind a header or a line in its place. -/
structure LineFault (p : Progress) (line : Line) (b : Breakdown) : Prop where
  notEnd : line.text ≠ "END"
  notHeader : (Text.words line.text).headD "" ≠ "TSET"
  notPart : partNamed? ((Text.words line.text).headD "") = none
  begun : p.tileset.isSome = true
  entry : EntryFault p line b

theorem readLine_breaksOff : (readLine line d s p).BreaksOff b ↔ LineFault p line b := by
  unfold readLine
  constructor
  · intro h
    split at h
    · simp at h
    · rename_i hend
      dsimp only at h
      split at h
      · simp [not_breaksOff_readHeader] at h
      · rename_i hh
        split at h
        · simp at h
        · rename_i ts hts
          rw [breaksOff_bind_right (fun _ => not_breaksOff_reportAtIf) fun _ => Iff.rfl] at h
          split at h
          · simp at h
          · rename_i hp
            exact ⟨hend, hh, hp, by simp [hts], readEntry_breaksOff.mp h⟩
  · intro h
    obtain ⟨ts, hts⟩ := Option.isSome_iff_exists.mp h.begun
    rw [if_neg h.notEnd]
    dsimp only
    rw [if_neg h.notHeader, hts]
    refine (breaksOff_bind_right (fun _ => not_breaksOff_reportAtIf) fun _ => Iff.rfl).mpr ?_
    rw [h.notPart]
    exact readEntry_breaksOff.mpr h.entry

/-! The end of the file -/

/-- More tiles than were declared, and a number of declared tiles that cannot be written. -/
def CountTooLong (p : Progress) : Prop :=
  ∃ ts, p.tileset = some ts ∧ tileLimit ts < ts.tiles.length ∧ TooLong (tileLimit ts)

theorem not_breaksOff_reportAtStart {c : Bool} : ¬(reportAtStart c cause).BreaksOff b :=
  not_breaksOff_reportIf _ _ _

theorem checkCount_breaksOff : (checkCount s p).BreaksOff b ↔ CountTooLong p ∧ b = .idTooLong := by
  have hc : ∀ ts : Tileset, (do
      reportAtStart (ts.tiles.length = 0) .noTiles
      if tileLimit ts < ts.tiles.length && Nat.pow 10 Number.maxDigits ≤ (tileLimit ts).natAbs then
        Report.breakOff .idTooLong
      reportAtStart (tileLimit ts < ts.tiles.length) (.tooManyDeclared ts.tiles.length (tileLimit ts))
      reportAtStart (255 < ts.tiles.length) .tooManyTiles
      return { ts with declaredCount := tileLimit ts } : Reading Tileset).BreaksOff b ↔
      (tileLimit ts < ts.tiles.length ∧ TooLong (tileLimit ts)) ∧ b = .idTooLong := by
    intro ts
    refine breaksOff_bind_right (fun _ => not_breaksOff_reportAtStart) fun _ => ?_
    unfold TooLong
    split
    · rename_i h
      rw [Bool.and_eq_true, decide_eq_true_eq, decide_eq_true_eq] at h
      simp only [h, breaksOff_bind, breaksOff_breakOff, not_returns_breakOff, false_and,
        exists_false, or_false, true_and, and_self]
      exact eq_comm
    · rename_i h
      rw [Bool.and_eq_true, decide_eq_true_eq, decide_eq_true_eq] at h
      simp only [h, breaksOff_bind, not_breaksOff_reportAtStart, not_breaksOff_pure, and_false,
        exists_false, false_and, or_self]
  unfold checkCount CountTooLong
  cases p.tileset with
  | none =>
    refine (breaksOff_bind_right (fun _ => not_breaksOff_reportAtStart) fun _ =>
      hc (defaultTileset s)).trans ?_
    simp [tileLimit, defaultTileset]
  | some ts =>
    refine (hc ts).trans ?_
    simp

theorem not_breaksOff_readObject {e : ObjectEntry} : ¬(e.read names).BreaksOff b := by
  have hr : ∀ cause key c, ¬(e.report cause key).BreaksOff c := fun _ _ _ => not_breaksOff_report _ _
  unfold ObjectEntry.read
  dsimp only
  split
  · simp [hr]
  · split
    · split
      · simp [hr]
      · split
        · split
          · simp [hr]
          · simp [not_breaksOff_foldlM]
        · simp [hr]
    · simp

theorem not_breaksOff_readObjects {entries : List ObjectEntry} : ¬(readObjects names entries).BreaksOff b := by
  refine not_breaksOff_foldlM (fun objects e c => ?_) _ _ _
  simp only [breaksOff_bind, not_breaksOff_readObject, false_or, not_exists, not_and]
  intro o _
  cases o <;> simp

def objectTable (objects : List ObjectDef) : Table String ObjectDef :=
  Table.ofEntries (objects.map fun o => (Text.upper o.name, o))

/-- A map character stands for what has this name, which no tile has. -/
def isTarget (names : Table String Int) (charmap : List CharmapEntry) (name : String) : Bool :=
  charmap.any (·.target == name) && !names.has name

/-- The tiles of the objects that map characters stand for. -/
def boundTiles (p : Progress) (objects : List ObjectDef) : List String :=
  ((objectTable objects).filter fun e => isTarget p.names p.charmap e.1).flatMap fun e => e.2.tiles

/-- An object of a table before and after some map characters were bound. -/
structure Marked (names : Table String Int) (done : List CharmapEntry) (e e' : String × ObjectDef) : Prop where
  key : e'.1 = e.1
  tiles : e'.2.tiles = e.2.tiles
  char : e'.2.char.isSome = isTarget names done e.1

theorem isTarget_concat {name : String} :
    isTarget names (done ++ [x]) name = (isTarget names done name || x.target == name && !names.has name) := by
  simp [isTarget, Bool.and_or_distrib_right]

/-- A map character changes nothing for an object that it does not stand for, or that has a character. -/
theorem Marked.concat {e e' : String × ObjectDef} (h : Marked names done e e')
    (hx : x.target = e.1 → names.has e.1 = true ∨ e'.2.char.isSome = true) : Marked names (done ++ [x]) e e' := by
  refine ⟨h.key, h.tiles, ?_⟩
  rw [isTarget_concat, ← h.char]
  by_cases hn : x.target = e.1
  · rcases hx hn with hx | hx <;> simp [hx]
  · simp [hn]

theorem keys_of_marked {table objects : Table String ObjectDef}
    (h : List.Forall₂ (Marked names done) table objects) : objects.keys = table.keys := by
  induction h with
  | nil => rfl
  | cons hm _ ih => rw [Table.keys_cons, Table.keys_cons, hm.key, ih]

theorem link_marked {ts ts' : LinkedTileset}
    {table : Table String ObjectDef} (hn : table.keys.Nodup) (hna : ts.names = names)
    (h : List.Forall₂ (Marked names done) table ts.objects) (hl : (x.link ts).Returns ts') :
    ts'.names = names ∧ List.Forall₂ (Marked names (done ++ [x])) table ts'.objects := by
  have hk := keys_of_marked h
  have hget : ∀ e' ∈ ts.objects, ts.objects.get? e'.1 = some e'.2 := fun e' he' =>
    Table.get?_of_mem (hk ▸ hn) he'
  unfold CharmapEntry.link at hl
  split at hl
  · rename_i id hid
    rw [returns_pure] at hl
    subst hl
    refine ⟨hna, forall₂_imp_of_mem h fun e e' _ hm => hm.concat fun hx => .inl ?_⟩
    rw [← hx, ← hna, Table.has, hid]
    rfl
  · rename_i hid
    split at hl
    · rename_i hno
      simp only [returns_bind, returns_report, returns_pure, true_and, exists_const] at hl
      subst hl
      refine ⟨hna, forall₂_imp_of_mem h fun e e' he' hm => hm.concat fun hx => ?_⟩
      have := hget e' he'
      rw [hm.key, ← hx, hno] at this
      cases this
    · rename_i o ho
      split at hl
      · rename_i hc
        rw [Bool.and_eq_true] at hc
        simp only [returns_bind, returns_report, returns_pure, true_and, exists_const] at hl
        subst hl
        refine ⟨hna, forall₂_imp_of_mem h fun e e' he' hm => hm.concat fun hx => .inr ?_⟩
        have := hget e' he'
        rw [hm.key, ← hx, ho, Option.some.injEq] at this
        exact this ▸ hc.1
      · rw [returns_pure] at hl
        subst hl
        refine ⟨hna, ?_⟩
        dsimp only
        have hmem : x.target ∈ ts.objects.keys := by
          rw [← Table.has_iff_mem_keys, Table.has, ho]
          rfl
        rw [Table.put_eq_map (hk ▸ hn) hmem, List.forall₂_map_right_iff]
        refine forall₂_imp_of_mem h fun e e' he' hm => ?_
        split
        · rename_i ht
          have := hget e' he'
          rw [ht, ho, Option.some.injEq] at this
          have hnm : x.target = e.1 := ht.symm.trans hm.key
          refine ⟨hnm, this ▸ hm.tiles, ?_⟩
          rw [isTarget_concat, hnm]
          have hf : names.has e.1 = false := by
            rw [← hnm, ← hna, Table.has, hid]
            rfl
          simp [hf]
        · rename_i ht
          exact hm.concat fun hx => absurd (hm.key.trans hx.symm) ht

theorem not_breaksOff_link {ts : LinkedTileset} : ¬(x.link ts).BreaksOff b := by
  unfold CharmapEntry.link
  split
  · simp
  · split
    · simp
    · split <;> simp

/-- Tiles are looked up one after the other, up to the first that does not exist. -/
theorem mapM_tiles_breaksOff (names : Table String Int) {look : String → Reading Int} {tiles : List String}
    (hs : ∀ t id, names.get? t = some id → look t = pure id)
    (hn : ∀ t, names.get? t = none → look t = Report.breakOff (.unknownTile t)) :
    (tiles.mapM look).BreaksOff b ↔ ∃ t, tiles.find? (fun t => !names.has t) = some t ∧ b = .unknownTile t := by
  induction tiles with
  | nil => simp
  | cons t tiles ih =>
    rw [List.mapM_cons, List.find?_cons, Table.has]
    cases ht : names.get? t with
    | none =>
      rw [hn t ht]
      simp only [breaksOff_bind, breaksOff_breakOff, not_returns_breakOff, false_and,
        exists_false, or_false, Option.isSome_none, Bool.not_false, Option.some.injEq, exists_eq_left']
      exact eq_comm
    | some id =>
      rw [hs t id ht, pure_bind, breaksOff_bind_left (fun _ => not_breaksOff_pure _ _), ih]
      rfl

theorem stamp_breaksOff {o : ObjectDef} : (ObjectDef.stamp o names).BreaksOff b ↔
    o.char.isSome = true ∧ ∃ t, o.tiles.find? (fun t => !names.has t) = some t ∧ b = .unknownTile t := by
  unfold ObjectDef.stamp
  cases o.char with
  | none => simp
  | some char =>
    rw [breaksOff_bind_left (fun _ => not_breaksOff_pure _ _), mapM_tiles_breaksOff names]
    · simp
    · intro t id ht
      rw [ht]
    · intro t ht
      rw [ht]

/-- The tiles of the objects that have a character. -/
def stampTiles (objects : Table String ObjectDef) : List String :=
  (objects.filter fun e => e.2.char.isSome).flatMap fun e => e.2.tiles

theorem readStamps_breaksOff {ts : LinkedTileset} : (readStamps ts).BreaksOff b ↔
    ∃ t, (stampTiles ts.objects).find? (fun t => !ts.names.has t) = some t ∧ b = .unknownTile t := by
  unfold readStamps stampTiles Table.values
  rw [List.foldlM_map]
  generalize ([] : Table String Stamp) = stamps
  induction ts.objects generalizing stamps with
  | nil => simp
  | cons e objects ih =>
    rw [List.foldlM_cons]
    cases hch : e.2.char with
    | none =>
      have hs : ObjectDef.stamp e.2 ts.names = pure none := by rw [ObjectDef.stamp, hch]
      rw [hs, List.filter_cons_of_neg (by simp [hch])]
      exact ih stamps
    | some char =>
      rw [List.filter_cons_of_pos (by simp [hch]), List.flatMap_cons, List.find?_append]
      cases ht : e.2.tiles.find? fun t => !ts.names.has t with
      | some t =>
        have hs := stamp_breaksOff.mpr ⟨by rw [hch]; rfl, t, ht, rfl⟩
        refine ((hs.bind _).bind _).iff_eq.trans ?_
        simp [eq_comm]
      | none =>
        obtain ⟨stamp, hs⟩ := exists_returns_iff (m := ObjectDef.stamp e.2 ts.names).mpr fun c hc => by
          obtain ⟨-, t, ht', -⟩ := stamp_breaksOff.mp hc
          rw [ht] at ht'
          cases ht'
        rw [bind_assoc, hs.breaksOff_bind, Option.none_or]
        cases stamp with
        | none => exact ih stamps
        | some stamp => exact ih (Table.put stamps stamp.char stamp)

theorem stampTiles_of_marked {charmap : List CharmapEntry}
    {table objects : Table String ObjectDef} (h : List.Forall₂ (Marked names charmap) table objects) :
    stampTiles objects = (table.filter fun e => isTarget names charmap e.1).flatMap fun e => e.2.tiles := by
  unfold stampTiles
  induction h with
  | nil => rfl
  | @cons e e' _ _ hm _ ih =>
    rw [List.filter_cons, List.filter_cons, hm.char]
    split
    · rw [List.flatMap_cons, List.flatMap_cons, hm.tiles, ih]
    · exact ih

/-- The first tile of a bound object that does not exist. -/
def unknownTile? (p : Progress) (objects : List ObjectDef) : Option String :=
  (boundTiles p objects).find? fun t => !p.names.has t

/-- What is wrong with a tileset file, so that it cannot be read to its end. -/
inductive Faulty (s : Surroundings) (text : String) : Breakdown → Prop
  | line {done rest : List Line} {line : Line} {p : Progress} {b : Breakdown} :
      sourceLines text = done ++ line :: rest → (readLines fullDialect s done).Returns p → LineFault p line b →
      Faulty s text b
  | count {p : Progress} : (readLines fullDialect s (sourceLines text)).Returns p → CountTooLong p →
      Faulty s text .idTooLong
  | object {p : Progress} {objects : List ObjectDef} {t : String} :
      (readLines fullDialect s (sourceLines text)).Returns p → ¬CountTooLong p →
      (readObjects p.names p.objects).Returns objects → unknownTile? p objects = some t →
      Faulty s text (.unknownTile t)

theorem char_of_readObject {e : ObjectEntry} {o : ObjectDef} (h : (e.read names).Returns (some o)) : o.char = none := by
  unfold ObjectEntry.read at h
  dsimp only at h
  split at h
  · simp at h
  · split at h
    · split at h
      · simp at h
      · split at h
        · split at h
          · simp at h
          · simp only [returns_bind, returns_pure, Option.some.injEq] at h
            obtain ⟨_, _, rfl⟩ := h
            rfl
        · simp at h
    · simp at h

theorem char_of_readObjects {entries : List ObjectEntry}
    (h : (readObjects names entries).Returns objects) : ∀ o ∈ objects, o.char = none := by
  refine Report.Returns.foldlM_induction (P := fun _ objects => ∀ o ∈ objects, o.char = none) h (by simp) ?_
  intro _ e objects objects' hold hs
  rw [returns_bind] at hs
  obtain ⟨read, hr, hs⟩ := hs
  cases read with
  | none => exact returns_pure.mp hs ▸ hold
  | some o =>
    rw [← returns_pure.mp hs]
    intro o' ho'
    rcases List.mem_append.mp ho' with ho' | ho'
    · exact hold o' ho'
    · rw [List.mem_singleton.mp ho']
      exact char_of_readObject hr

theorem unbound_objectTable (h : ∀ o ∈ objects, o.char = none) (names : Table String Int) :
    List.Forall₂ (Marked names []) (objectTable objects) (objectTable objects) := by
  have hn : ∀ e ∈ objectTable objects, e.2.char = none := by
    apply Table.forall_mem_ofEntries
    intro e he
    obtain ⟨o, ho, rfl⟩ := List.mem_map.mp he
    exact h o ho
  rw [List.forall₂_same]
  intro e he
  exact ⟨rfl, rfl, by rw [hn e he]; rfl⟩

/-- Binding the map characters never breaks off, and then the stamps do at the first tile that does not exist. -/
theorem links_breaksOff (h : ∀ o ∈ objects, o.char = none) {linked : LinkedTileset}
    (hn : linked.names = p.names) (ho : linked.objects = objectTable objects) : (do
      let linked ← p.charmap.foldlM (fun ts e => e.link ts) linked
      let stamps ← readStamps linked
      return { linked with stamps } : Reading LinkedTileset).BreaksOff b ↔
      ∃ t, unknownTile? p objects = some t ∧ b = .unknownTile t := by
  obtain ⟨linked', hl'⟩ := exists_returns_iff.mpr fun c =>
    not_breaksOff_foldlM (fun _ _ _ => not_breaksOff_link) p.charmap linked c
  have hm : linked'.names = p.names ∧
      List.Forall₂ (Marked p.names p.charmap) (objectTable objects) linked'.objects := by
    refine Report.Returns.foldlM_induction (P := fun done linked => linked.names = p.names ∧
      List.Forall₂ (Marked p.names done) (objectTable objects) linked.objects) hl' ?_ ?_
    · exact ⟨hn, ho ▸ unbound_objectTable h p.names⟩
    · intro done x ts ts' hts hl
      exact link_marked (Table.nodup_keys_ofEntries _) hts.1 hts.2 hl
  rw [hl'.breaksOff_bind, breaksOff_bind_left (fun _ => not_breaksOff_pure _ _),
    readStamps_breaksOff, stampTiles_of_marked hm.2, hm.1]
  rfl

theorem read_breaksOff : (read s text).BreaksOff b ↔ Faulty s text b := by
  unfold read
  constructor
  · intro h
    rw [breaksOff_bind] at h
    rcases h with h | ⟨p, hp, h⟩
    · obtain ⟨done, line, rest, p, hl, hp, hli⟩ := breaksOff_foldlM.mp h
      exact .line hl hp (readLine_breaksOff.mp hli)
    · rw [breaksOff_bind] at h
      rcases h with h | ⟨ts, hts, h⟩
      · obtain ⟨hco, rfl⟩ := checkCount_breaksOff.mp h
        exact .count hp hco
      · have hco : ¬CountTooLong p := fun hco =>
          hts.not_breaksOff .idTooLong (checkCount_breaksOff.mpr ⟨hco, rfl⟩)
        rw [breaksOff_bind] at h
        rcases h with h | ⟨objects, ho, h⟩
        · exact absurd h not_breaksOff_readObjects
        · obtain ⟨t, ht, rfl⟩ := (links_breaksOff (char_of_readObjects ho) rfl rfl).mp h
          exact .object hp hco ho ht
  · intro h
    rw [breaksOff_bind]
    cases h with
    | line hl hp hli =>
      exact .inl (breaksOff_foldlM.mpr ⟨_, _, _, _, hl, hp, readLine_breaksOff.mpr hli⟩)
    | count hp hco =>
      refine .inr ⟨_, hp, ?_⟩
      rw [breaksOff_bind]
      exact .inl (checkCount_breaksOff.mpr ⟨hco, rfl⟩)
    | object hp hco ho ht =>
      refine .inr ⟨_, hp, ?_⟩
      obtain ⟨ts, hts⟩ := exists_returns_iff.mpr fun c (hc : (checkCount s _).BreaksOff c) =>
        hco (checkCount_breaksOff.mp hc).1
      rw [hts.breaksOff_bind, ho.breaksOff_bind]
      exact (links_breaksOff (char_of_readObjects ho) rfl rfl).mpr ⟨_, ht, rfl⟩

end Tileset

end EscapeRoom
