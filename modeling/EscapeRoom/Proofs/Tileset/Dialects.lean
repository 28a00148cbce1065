import EscapeRoom.Proofs.StrictRuns
import EscapeRoom.Proofs.Tileset.Built

/-!
# The two readings of a tileset file

The plain reading keeps objects as a list, knows fewer names of colours and forgets no tile names. In strict
mode both readings come to the same end for every file that has one header at most, in which no colour is
one of the greys that only one of them knows, and whose objects have different names.
-/

namespace EscapeRoom

theorem Table.get?_append {κ ν : Type} [DecidableEq κ] {t u : Table κ ν} {k : κ} (h : k ∉ u.keys) :
    (t ++ u).get? k = t.get? k := by
  have hn : u.get? k = none := Table.get?_eq_none_iff.mpr h
  rw [Table.get?, Option.map_eq_none_iff] at hn
  rw [Table.get?, Table.get?, List.find?_append, hn, Option.or_none]

namespace Tileset

open Report

/-! What a file says -/

def firstWord (line : Line) : String :=
  (Text.words line.text).headD ""

def isHeader (line : Line) : Bool :=
  firstWord line == "TSET"

theorem isHeader_iff {line : Line} : isHeader line = true ↔ firstWord line = "TSET" :=
  beq_iff_eq

def sectionAfter (part : Option Part) (line : Line) : Option Part :=
  if line.text = "END" then none
  else if firstWord line = "TSET" then part
  else match partNamed? (firstWord line) with
    | some next => some next
    | none => part

/-- What the lines of a file say, when it depends on the section of a line what it says. -/
def gather (told : Option Part → Line → List String) : Option Part → List Line → List String
  | _, [] => []
  | part, line :: rest => told part line ++ gather told (sectionAfter part line) rest

/-- The colours of a header; a colour that is missing is zero. -/
def headerColors (fields : Fields) : List String :=
  [SharedColor.background, .multicolor1, .multicolor2].map fun color => fields.getD color.key "0"

def tileColors (fields : Fields) : List String :=
  match fields.get? "colors", fields.get? "color" with
  | some text, _ => (Text.parts ',' text).map Text.trim
  | none, some text => [text]
  | none, none => []

def lineColors (part : Option Part) (line : Line) : List String :=
  if line.text = "END" then []
  else if firstWord line = "TSET" then headerColors (Fields.scan line.text)
  else if (partNamed? (firstWord line)).isSome then []
  else if part = some .tiles then
    tileColors (Fields.scan (Text.trim (Text.dropChars (firstWord line).length line.text)))
  else if firstWord line = "TILE" then tileColors (Fields.scan line.text)
  else []

def lineObject (part : Option Part) (line : Line) : List String :=
  if line.text = "END" then []
  else if firstWord line = "TSET" then []
  else if (partNamed? (firstWord line)).isSome then []
  else if part = some .objects && firstWord line != "TILE" then [firstWord line]
  else []

/-- A colour that is not one of the greys with two spellings. -/
def AvoidsGrey (color : String) : Prop :=
  colorKey (Text.trim color) ∉ greyNames.keys

instance (color : String) : Decidable (AvoidsGrey color) :=
  inferInstanceAs (Decidable (_ ∉ _))

structure Common (lines : List Line) : Prop where
  headers : lines.countP isHeader ≤ 1
  colors : ∀ color ∈ gather lineColors none lines, AvoidsGrey color
  objects : ((gather lineObject none lines).map Text.upper).Nodup

/-! Colours -/

theorem parseColor_eq {color : String} (h : AvoidsGrey color) :
    parseColor fullDialect.colors color = parseColor plainDialect.colors color := by
  have hget : fullDialect.colors.get? (colorKey (Text.trim color)) =
      plainDialect.colors.get? (colorKey (Text.trim color)) := Table.get?_append h
  rw [parseColor, parseColor, hget]

theorem mapM_congr_left {ε α β : Type} {f g : α → Except ε β} {xs : List α} (h : ∀ x ∈ xs, f x = g x) :
    xs.mapM f = xs.mapM g := by
  induction xs with
  | nil => rfl
  | cons x xs ih =>
    rw [List.forall_mem_cons] at h
    rw [List.mapM_cons, List.mapM_cons, h.1, ih h.2]

theorem parseQuad_eq {text : String} (h : ∀ color ∈ (Text.parts ',' text).map Text.trim, AvoidsGrey color) :
    parseQuad (parseColor fullDialect.colors) text = parseQuad (parseColor plainDialect.colors) text := by
  have hl : parseList (parseColor fullDialect.colors) text 4 =
      parseList (parseColor plainDialect.colors) text 4 := by
    rw [parseList, parseList, mapM_congr_left fun color hc => parseColor_eq (h color hc)]
  rw [parseQuad, parseQuad, hl]

section

variable {line : Line} {s : Surroundings} {p p' : Progress} {ts : Tileset} {fields : Fields}

theorem readColors_eq (h : ∀ color ∈ tileColors fields, AvoidsGrey color) :
    readColors line fullDialect fields = readColors line plainDialect fields := by
  unfold tileColors at h
  unfold readColors
  split
  · rename_i text ht
    simp only [ht] at h
    rw [parseQuad_eq h]
  · rename_i text hn ht
    simp only [hn, ht] at h
    rw [parseColor_eq (h text List.mem_cons_self)]
  · rfl

theorem readHeader_eq (h : ∀ color ∈ headerColors fields, AvoidsGrey color) :
    readHeader line fullDialect s fields = readHeader line plainDialect s fields := by
  have hs : ∀ color ∈ [SharedColor.background, .multicolor1, .multicolor2],
      readSharedColor line fullDialect fields color = readSharedColor line plainDialect fields color := by
    intro color hc
    rw [readSharedColor, readSharedColor, parseColor_eq (h _ (List.mem_map_of_mem hc))]
  unfold readHeader
  rw [hs .background (by decide), hs .multicolor1 (by decide), hs .multicolor2 (by decide)]

theorem addTile_eq {id : Int} {name : String} (h : ∀ color ∈ tileColors fields, AvoidsGrey color) :
    addTile line fullDialect p ts id name fields = addTile line plainDialect p ts id name fields := by
  unfold addTile
  rw [readColors_eq h]

theorem addSectionTile_eq {name : String}
    (h : ∀ color ∈ tileColors (Fields.scan (Text.trim (Text.dropChars name.length line.text))),
      AvoidsGrey color) :
    addSectionTile line fullDialect p ts name = addSectionTile line plainDialect p ts name := by
  unfold addSectionTile
  simp only [addTile_eq h]

theorem addLoneTile_eq (h : ∀ color ∈ tileColors (Fields.scan line.text), AvoidsGrey color) :
    addLoneTile line fullDialect p ts = addLoneTile line plainDialect p ts := by
  unfold addLoneTile
  simp only [addTile_eq h]

/-! Lines -/

theorem readEntry_endsAs {parts : List String} {head : String} (hh : parts.headD "" = head)
    (ht : p.part = some .tiles →
      ∀ color ∈ tileColors (Fields.scan (Text.trim (Text.dropChars head.length line.text))),
        AvoidsGrey color)
    (hti : p.part ≠ some .tiles → head = "TILE" →
      ∀ color ∈ tileColors (Fields.scan line.text), AvoidsGrey color) :
    EndsAs id (readEntry line fullDialect p ts parts) (readEntry line plainDialect p ts parts) := by
  unfold readEntry
  rw [hh]
  dsimp only
  split
  · rename_i hp
    exact endsAs_of_eq (addSectionTile_eq (ht hp))
  · rename_i hp
    split
    · rename_i hth
      exact endsAs_of_eq (addLoneTile_eq (hti hp hth))
    · split
      · rfl
      · rfl
      · exact endsAs_report _ _ _

/-- A line is read in the same way if its colours avoid the greys, and if it is the first header. -/
theorem readLine_endsAs (hc : ∀ color ∈ lineColors p.part line, AvoidsGrey color)
    (hh : firstWord line = "TSET" → p.names = []) :
    EndsAs id (readLine line fullDialect s p) (readLine line plainDialect s p) := by
  unfold lineColors at hc
  unfold readLine
  split
  · rfl
  · rename_i hend
    rw [if_neg hend] at hc
    change EndsAs id (if firstWord line = "TSET" then _ else _) (if firstWord line = "TSET" then _ else _)
    split
    · rename_i ht
      rw [if_pos ht] at hc
      dsimp only
      rw [readHeader_eq hc, hh ht]
      exact endsAs_of_eq rfl
    · rename_i ht
      rw [if_neg ht] at hc
      split
      · rfl
      · refine (EndsAs.refl _).bind fun _ _ => ?_
        split
        · rfl
        · rename_i hn
          rw [if_neg (by rw [firstWord, hn]; simp)] at hc
          refine readEntry_endsAs (rfl : _ = firstWord line) (fun hp => ?_) fun hp hti => ?_
          · rwa [if_pos hp] at hc
          · rwa [if_neg hp, if_pos hti] at hc

/-- What a line does to the section and to the objects: it may add the name of one. -/
structure Progress.Follows (p p' : Progress) (part : Option Part) (object : List String) : Prop where
  part : p'.part = part
  objects : p'.objects.map (·.name) = p.objects.map (·.name) ++ object

variable {d : Dialect}

theorem Progress.Follows.of_eq {part : Option Part} (hp : p'.part = part)
    (ho : p'.objects = p.objects) : p.Follows p' part [] :=
  ⟨hp, by rw [ho, List.append_nil]⟩

theorem addTile_follows {id nextId : Int} {name : String}
    (h : (addTile line d { p with nextId } ts id name fields).Yields p') : p.Follows p' p.part [] := by
  simp only [addTile, yields_bind, yields_reportAtIf] at h
  obtain ⟨_, _, _, _, _, _, _, _, _, hn, _, hnew, h⟩ := h
  rw [hn, hnew, Bool.or_false, if_neg Bool.false_ne_true, yields_pure] at h
  subst h
  exact .of_eq rfl rfl

theorem readEntry_follows {parts : List String} {head : String} (hh : parts.headD "" = head)
    (h : (readEntry line d p ts parts).Yields p') :
    p.Follows p' p.part (if p.part = some .objects && head != "TILE" then [head] else []) := by
  unfold readEntry at h
  rw [hh] at h
  dsimp only at h
  split at h
  · rename_i hp
    rw [if_neg (by simp [hp])]
    obtain ⟨_, _, _, h⟩ := addSectionTile_yields h
    exact addTile_follows h
  · split at h
    · rename_i ht
      rw [if_neg (by simp [ht])]
      obtain ⟨_, _, _, _, h⟩ := addLoneTile_yields h
      exact addTile_follows h
    · rename_i ht
      split at h
      · rename_i hp
        rw [if_neg (by simp [hp])]
        simp only [addCharmapEntry, yields_bind] at h
        obtain ⟨_, _, _, _, h⟩ := h
        split at h
        · simp at h
        · simp only [yields_bind, yields_pure] at h
          obtain ⟨_, _, rfl⟩ := h
          exact .of_eq rfl rfl
      · rename_i hp
        rw [if_pos (by simp [hp, ht])]
        obtain rfl := yields_pure.mp h
        exact ⟨rfl, by simp [addObjectEntry]⟩
      · simp [addStrayLine] at h

theorem readLine_follows (h : (readLine line d s p).Yields p') :
    p.Follows p' (sectionAfter p.part line) (lineObject p.part line) := by
  unfold readLine at h
  unfold sectionAfter lineObject
  split at h
  · rename_i hend
    obtain rfl := yields_pure.mp h
    rw [if_pos hend, if_pos hend]
    exact .of_eq rfl rfl
  · rename_i hend
    rw [if_neg hend, if_neg hend]
    change Yields (if firstWord line = "TSET" then _ else _) p' at h
    split at h
    · rename_i ht
      simp only [yields_bind, yields_pure] at h
      obtain ⟨_, _, rfl⟩ := h
      rw [if_pos ht, if_pos ht]
      exact .of_eq rfl rfl
    · rename_i ht
      rw [if_neg ht, if_neg ht]
      split at h
      · simp at h
      · rw [yields_bind] at h
        obtain ⟨_, _, h⟩ := h
        split at h
        · rename_i part hp
          obtain rfl := yields_pure.mp h
          rw [show partNamed? (firstWord line) = some part from hp]
          exact .of_eq rfl rfl
        · rename_i hp
          rw [show partNamed? (firstWord line) = none from hp]
          exact readEntry_follows rfl h

theorem readLine_before_header (hts : p.tileset = none) (hl : firstWord line ≠ "TSET")
    (h : (readLine line d s p).Yields p') : p'.tileset = none ∧ p'.names = p.names := by
  unfold readLine at h
  split at h
  · obtain rfl := yields_pure.mp h
    exact ⟨hts, rfl⟩
  · change Yields (if firstWord line = "TSET" then _ else _) p' at h
    rw [if_neg hl] at h
    simp [hts] at h

theorem readLines_objects {lines : List Line} (h : (readLines d s lines).Yields p) :
    p.objects.map (·.name) = gather lineObject none lines := by
  suffices hs : ∀ (lines : List Line) (q : Progress),
      (lines.foldlM (fun p line => readLine line d s p) q).Yields p →
      p.objects.map (·.name) = q.objects.map (·.name) ++ gather lineObject q.part lines from hs lines {} h
  intro lines
  induction lines with
  | nil =>
    intro q h
    rw [List.foldlM_nil, yields_pure] at h
    rw [h, gather, List.append_nil]
  | cons line lines ih =>
    intro q h
    rw [List.foldlM_cons, yields_bind] at h
    obtain ⟨q', hq', h⟩ := h
    have hf := readLine_follows hq'
    rw [ih q' h, hf.objects, hf.part, List.append_assoc, gather]

/-- What is left to read is understood alike: its colours avoid the greys, and there is no header left unless
nothing has been read. -/
structure Progress.Fit (lines : List Line) (p : Progress) : Prop where
  colors : ∀ color ∈ gather lineColors p.part lines, AvoidsGrey color
  headers : lines.countP isHeader = 0 ∨
    lines.countP isHeader ≤ 1 ∧ p.tileset = none ∧ p.names = []

theorem Progress.Fit.readLine {rest : List Line} (h : p.Fit (line :: rest))
    (hr : (readLine line d s p).Yields p') : p'.Fit rest := by
  obtain ⟨hc, hh⟩ := h
  rw [gather, List.forall_mem_append] at hc
  rw [List.countP_cons] at hh
  refine ⟨(readLine_follows hr).part ▸ hc.2, ?_⟩
  rcases hh with hn | ⟨hone, hts, hna⟩
  · exact .inl (by omega)
  · by_cases hl : firstWord line = "TSET"
    · rw [if_pos (isHeader_iff.mpr hl)] at hone
      exact .inl (by omega)
    · obtain ⟨hts', hn'⟩ := readLine_before_header hts hl hr
      exact .inr ⟨by omega, hts', hn'.trans hna⟩

theorem Progress.Fit.names {rest : List Line} (h : p.Fit (line :: rest)) (hl : firstWord line = "TSET") :
    p.names = [] := by
  have hh := h.headers
  rw [List.countP_cons, if_pos (isHeader_iff.mpr hl)] at hh
  rcases hh with hn | ⟨_, _, hna⟩
  · omega
  · exact hna

theorem readLines_endsAs {lines : List Line} (h : Common lines) :
    EndsAs id (readLines fullDialect s lines) (readLines plainDialect s lines) := by
  have hfit : Progress.Fit lines {} := ⟨h.colors, .inr ⟨h.headers, rfl, rfl⟩⟩
  refine EndsAs.foldlM (fun lines p => p.Fit lines) (fun line rest p hp => ⟨?_, ?_⟩) hfit
  · have hc := hp.colors
    rw [gather, List.forall_mem_append] at hc
    exact readLine_endsAs hc.1 hp.names
  · intro p' hr
    exact hp.readLine hr

/-! Objects -/

/-- An object that is a full rectangle of known tiles. -/
structure ObjectSound (names : Table String Int) (o : ObjectDef) : Prop where
  known : ∀ t ∈ o.tiles, names.has t = true
  full : (o.tiles.length : Int) = o.width * o.height

theorem ObjectEntry.read_yields {e : ObjectEntry} {names : Table String Int} {found : Option ObjectDef}
    (h : (e.read names).Yields found) :
    ∃ o, found = some o ∧ o.name = e.name ∧ o.char = none ∧ ObjectSound names o := by
  unfold ObjectEntry.read at h
  dsimp only at h
  split at h
  · simp [ObjectEntry.report] at h
  · split at h
    · split at h
      · simp [ObjectEntry.report] at h
      · split at h
        · split at h
          · simp [ObjectEntry.report] at h
          · rename_i hf
            simp only [yields_bind, yields_forIn, yields_pure, yields_reportIf, Bool.not_eq_false'] at h
            obtain ⟨_, ht, rfl⟩ := h
            exact ⟨_, rfl, rfl, rfl, ht, not_not.mp hf⟩
        · simp [ObjectEntry.report] at h
    · simp at h

/-- Every entry gives an object of its name, which is not bound to a map character yet. -/
theorem readObjects_yields {names : Table String Int} {entries : List ObjectEntry}
    {objects : List ObjectDef} (h : (readObjects names entries).Yields objects) :
    objects.map (·.name) = entries.map (·.name) ∧ ∀ o ∈ objects, o.char = none ∧ ObjectSound names o := by
  refine Yields.foldlM_induction (P := fun entries objects =>
    objects.map (·.name) = entries.map (·.name) ∧ ∀ o ∈ objects, o.char = none ∧ ObjectSound names o)
    h ⟨rfl, by simp⟩ ?_
  intro done e _ objects objects' _ hdo hs
  rw [yields_bind] at hs
  obtain ⟨found, hf, hs⟩ := hs
  obtain ⟨o, rfl, hn, hu, hso⟩ := ObjectEntry.read_yields hf
  obtain rfl := yields_pure.mp hs
  refine ⟨by rw [List.map_append, List.map_append, hdo.1, List.map_singleton, hn]; rfl, ?_⟩
  rw [List.forall_mem_append, List.forall_mem_singleton]
  exact ⟨hdo.2, hu, hso⟩

end

end Tileset

end EscapeRoom
