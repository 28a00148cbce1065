import EscapeRoom.Proofs.Lines
import EscapeRoom.Proofs.Tileset.Steps

/-!
# The order of sections does not matter

The lines of a section work on a share of what is known that is theirs alone: tiles on the tiles and their names, objects
and map characters on lists that are looked at when all lines are read. Where a line stands matters only for what is
reported about it. So sections that are read without an issue in one order are read so in every order, and the tileset is
the same.
-/

namespace EscapeRoom

open Report

/-- Folds over lists that correspond to each other yield the same if their steps do. -/
theorem Report.yields_foldlM_of_forall₂ {ι χ α α' β : Type} {R : α → α' → Prop} {f : β → α → Report ι χ β}
    {g : β → α' → Report ι χ β} {xs : List α} {ys : List α'} (h : List.Forall₂ R xs ys)
    (hs : ∀ b x y c, R x y → ((f b x).Yields c ↔ (g b y).Yields c)) {b c : β} :
    (xs.foldlM f b).Yields c ↔ (ys.foldlM g b).Yields c := by
  induction h generalizing b with
  | nil => rfl
  | cons hxy _ ih =>
    rw [List.foldlM_cons, List.foldlM_cons, yields_bind, yields_bind]
    exact exists_congr fun b' => and_congr (hs b _ _ b' hxy) ih

theorem Report.yields_unless_breakOff {ι χ α : Type} {b : Prop} [Decidable b] {c : χ} {m : Report ι χ α} {a : α} :
    (if b then do
      Report.breakOff c
      m
    else m).Yields a ↔ ¬b ∧ m.Yields a := by
  split
  · simp [*]
  · simp [*]

namespace Tileset

variable {line line' : Line} {d : Dialect} {s : Surroundings} {p p' q : Progress} {ts : Tileset} {fields : Fields}

/-! ### What is read does not depend on the place of a line -/

theorem checkId_yields_iff {id a : Int} : (checkId line id).Yields a ↔ (checkId line' id).Yields a := by
  unfold checkId
  split <;> simp

theorem readChars_yields_iff {a : Quad Int} : (readChars line fields).Yields a ↔ (readChars line' fields).Yields a := by
  unfold readChars
  dsimp only
  split
  · simp
  · simp only [yields_bind, valueOr_yields, yields_forIn, yields_reportAtIf]

theorem readColors_yields_iff {a : ColorMode × Quad Int} :
    (readColors line d fields).Yields a ↔ (readColors line' d fields).Yields a := by
  unfold readColors
  split
  · simp only [yields_bind, valueOr_yields, yields_pure, yields_forIn, yields_reportAtIf]
  · simp only [yields_bind, valueOr_yields, yields_pure, yields_forIn, yields_reportAtIf]
  · simp

theorem readFlags_yields_iff {a : Nat} : (readFlags line fields).Yields a ↔ (readFlags line' fields).Yields a := by
  refine yields_foldlM_of_forall₂ (R := Eq) (by simp) ?_
  rintro mask part _ next rfl
  dsimp only
  split
  · rfl
  · split <;> simp

theorem objectRead_yields_iff {e e' : ObjectEntry} {names : Table String Int} {o : Option ObjectDef}
    (ht : e.text = e'.text) (hn : e.name = e'.name) : (e.read names).Yields o ↔ (e'.read names).Yields o := by
  have hr : ∀ (e : ObjectEntry) cause key u, ¬(e.report cause key).Yields u := fun _ _ _ => not_yields_report _
  unfold ObjectEntry.read
  rw [ht, hn]
  dsimp only
  split
  · simp [hr]
  · split
    · split
      · simp [hr]
      · split
        · split
          · simp [hr]
          · simp only [yields_bind, yields_forIn, yields_reportIf]
        · simp [hr]
    · simp

theorem readObjects_yields_iff {es es' : List ObjectEntry} {names : Table String Int} {objects : List ObjectDef}
    (h : es.map (fun e => (e.text, e.name)) = es'.map fun e => (e.text, e.name)) :
    (readObjects names es).Yields objects ↔ (readObjects names es').Yields objects := by
  rw [← List.forall₂_eq_eq_eq, List.forall₂_map_left_iff, List.forall₂_map_right_iff] at h
  refine yields_foldlM_of_forall₂ h ?_
  intro objects e e' next hs
  obtain ⟨ht, hn⟩ := Prod.mk.inj hs
  rw [yields_bind, yields_bind]
  exact exists_congr fun o => and_congr_left' (objectRead_yields_iff ht hn)

theorem links_yields_iff {es es' : List CharmapEntry} {linked linked' : LinkedTileset}
    (h : es.map (fun e => (e.key, e.target)) = es'.map fun e => (e.key, e.target)) :
    (es.foldlM (fun ts (e : CharmapEntry) => e.link ts) linked).Yields linked' ↔
      (es'.foldlM (fun ts (e : CharmapEntry) => e.link ts) linked).Yields linked' := by
  rw [← List.forall₂_eq_eq_eq, List.forall₂_map_left_iff, List.forall₂_map_right_iff] at h
  refine yields_foldlM_of_forall₂ h ?_
  intro ts e e' next hs
  obtain ⟨hkey, ht⟩ := Prod.mk.inj hs
  unfold CharmapEntry.link
  rw [hkey, ht]
  split
  · rfl
  · split
    · simp
    · split
      · simp
      · rfl

theorem addTile_elsewhere {id : Int} {name : String} (h : (addTile line d p ts id name fields).Yields p') :
    ∃ ts' names draft, p' = { p with tileset := some ts', names, draft } ∧
      ∀ (line' : Line) (q : Progress), q.names = p.names →
        (addTile line' d q ts id name fields).Yields { q with tileset := some ts', names, draft } := by
  simp only [addTile, yields_bind, yields_reportAtIf] at h
  obtain ⟨id', hid, chars, hc, ⟨mode, colors⟩, hco, flags, hf, _, hn, _, hnew, h⟩ := h
  rw [hn, hnew, Bool.or_false, if_neg Bool.false_ne_true, yields_pure] at h
  refine ⟨_, _, _, h.symm, fun line' q hna => ?_⟩
  simp only [addTile, yields_bind, yields_reportAtIf]
  refine ⟨id', checkId_yields_iff.mp hid, chars, readChars_yields_iff.mp hc, ⟨mode, colors⟩,
    readColors_yields_iff.mp hco, flags, readFlags_yields_iff.mp hf, (), ?_, (), hnew, ?_⟩
  · rw [hna, hn]
  · rw [hna, hn, hnew, Bool.or_false, if_neg Bool.false_ne_true, yields_pure]

theorem addSectionTile_elsewhere {name : String} (ht : line'.text = line.text) (hn : q.names = p.names)
    (hne : q.nextId = p.nextId) (h : (addSectionTile line d p ts name).Yields p') :
    ∃ ts' names nextId draft, p' = { p with tileset := some ts', names, nextId, draft } ∧
      (addSectionTile line' d q ts name).Yields { q with tileset := some ts', names, nextId, draft } := by
  unfold addSectionTile at h ⊢
  rw [ht, hne]
  generalize Nat.pow 10 Number.maxDigits = bound at h ⊢
  dsimp only at h ⊢
  split at h
  · simp only [pure_bind, yields_unless_breakOff] at h ⊢
    obtain ⟨hl, h⟩ := h
    obtain ⟨ts', names, draft, rfl, hq⟩ := addTile_elsewhere h
    refine ⟨ts', names, _, draft, rfl, hl, ?_⟩
    apply hq
    exact hn
  · simp only [yields_bind, valueOr_yields, yields_unless_breakOff] at h ⊢
    obtain ⟨id, hid, hl, h⟩ := h
    obtain ⟨ts', names, draft, rfl, hq⟩ := addTile_elsewhere h
    refine ⟨ts', names, _, draft, rfl, id, hid, hl, ?_⟩
    apply hq
    exact hn

theorem addCharmapEntry_elsewhere {parts : List String}
    (he : (q.charmap.map fun e => (e.key, e.target)) = p.charmap.map fun e => (e.key, e.target))
    (h : (addCharmapEntry line p parts).Yields p') :
    ∃ key target, p' = { p with charmap := p.charmap ++ [⟨line.number, key, target⟩] } ∧
      (addCharmapEntry line' q parts).Yields { q with charmap := q.charmap ++ [⟨line'.number, key, target⟩] } := by
  have hany : ∀ key, q.charmap.any (·.key == key) = p.charmap.any (·.key == key) := by
    intro key
    have hk := congrArg (List.any · fun e => e.1 == key) he
    simpa only [List.any_map, Function.comp_def] using hk
  simp only [addCharmapEntry, yields_bind, yields_reportAtIf] at h ⊢
  obtain ⟨_, htwo, _, hkey, h⟩ := h
  split at h
  · simp at h
  · rename_i target ht
    simp only [yields_bind, yields_pure, yields_reportAtIf] at h
    obtain ⟨_, hnew, h⟩ := h
    refine ⟨_, _, h.symm, (), htwo, (), hkey, ?_⟩
    simp only [yields_bind, yields_pure, yields_reportAtIf]
    exact ⟨(), by rw [hany, hnew], trivial⟩

/-! ### Every section has its share -/

/-- What the lines of a section work on, without the places of its lines. -/
inductive Share where
  | tiles (tileset : Option Tileset) (names : Table String Int) (nextId : Int)
  | charmap (entries : List (String × String))
  | objects (entries : List (String × String))

def Progress.share (p : Progress) : Part → Share
  | .tiles => .tiles p.tileset p.names p.nextId
  | .charmap => .charmap (p.charmap.map fun e => (e.key, e.target))
  | .objects => .objects (p.objects.map fun e => (e.text, e.name))

@[simp] theorem Progress.share_within (p : Progress) (inside : Option Part) (part : Part) :
    Progress.share { p with part := inside } part = p.share part := by
  cases part <;> rfl

def Progress.Begun (p : Progress) : Prop :=
  p.tileset.isSome = true

/-- One share has become another, and nothing else has happened to the shares. -/
structure Progress.Reaches (q : Progress) (part : Part) (share : Share) (q' : Progress) : Prop where
  share_eq : q'.share part = share
  others : ∀ other, other ≠ part → q'.share other = q.share other
  begun : q'.Begun

theorem Progress.Reaches.trans {part : Part} {a b : Share} {q q' q'' : Progress} (h : q.Reaches part a q')
    (h' : q'.Reaches part b q'') : q.Reaches part b q'' :=
  ⟨h'.share_eq, fun other ho => (h'.others other ho).trans (h.others other ho), h'.begun⟩

/-- The words that begin a tileset, a tile outside all sections or a section. -/
def headWords : List String :=
  ["TSET", "TILE", "TILES", "CHARMAP", "OBJECTS", "FLAGBITS"]

/-- The text belongs to the section in which it stands, whichever that is. -/
structure Inner (text : String) : Prop where
  not_end : text ≠ "END"
  head : (Text.words text).headD "" ∉ headWords

def addEntry (part : Part) (line : Line) (d : Dialect) (p : Progress) (ts : Tileset) : Reading Progress :=
  match part with
  | .tiles => addSectionTile line d p ts ((Text.words line.text).headD "")
  | .charmap => addCharmapEntry line p (Text.words line.text)
  | .objects => pure (addObjectEntry line p ((Text.words line.text).headD ""))

variable {part : Part}

theorem readLine_inner (hl : Inner line.text) (hp : p.part = some part) (hts : p.tileset = some ts) :
    (readLine line d s p).Yields p' ↔ (addEntry part line d p ts).Yields p' := by
  have hh := hl.head
  simp only [headWords, List.mem_cons, List.not_mem_nil, or_false, not_or] at hh
  obtain ⟨ht, hti, htl, hc, ho, hf⟩ := hh
  have hpl : firstWord line ∉ "TSET" :: "FLAGBITS" :: sectionWords := by
    simp only [firstWord, sectionWords, List.mem_cons, List.not_mem_nil, or_false, not_or]
    exact ⟨ht, hf, htl, hc, ho⟩
  rw [readLine_entry hl.not_end hpl hts]
  unfold readEntry
  dsimp only
  rw [hp, if_neg hti]
  cases part with
  | tiles => rfl
  | charmap => rfl
  | objects => rfl

/-- Within a section a line does to its share what it does wherever the section stands. -/
theorem addEntry_elsewhere {us : Tileset} (ht : line'.text = line.text) (hts : p.tileset = some ts)
    (hus : q.tileset = some us) (hs : q.share part = p.share part) (h : (addEntry part line d p ts).Yields p') :
    ∃ q', (addEntry part line' d q us).Yields q' ∧ q'.part = q.part ∧ q.Reaches part (p'.share part) q' := by
  unfold addEntry at h ⊢
  rw [ht]
  cases part with
  | tiles =>
    obtain ⟨hti, hn, hne⟩ := Share.tiles.inj hs
    obtain rfl : us = ts := Option.some.inj (hus.symm.trans (hti.trans hts))
    obtain ⟨ts', names, nextId, draft, rfl, hq⟩ := addSectionTile_elsewhere ht hn hne h
    refine ⟨_, hq, rfl, rfl, ?_, rfl⟩
    rintro (_ | _ | _) ho
    · exact absurd rfl ho
    · rfl
    · rfl
  | charmap =>
    have he := Share.charmap.inj hs
    obtain ⟨key, target, rfl, hq⟩ := @addCharmapEntry_elsewhere line line' p p' q _ he h
    refine ⟨_, hq, rfl, ?_, ?_, by simp [Progress.Begun, hus]⟩
    · simp [Progress.share, he]
    · rintro (_ | _ | _) ho
      · rfl
      · exact absurd rfl ho
      · rfl
  | objects =>
    have he := Share.objects.inj hs
    rw [yields_pure] at h
    subst h
    refine ⟨_, yields_pure.mpr rfl, rfl, ?_, ?_, by simp [Progress.Begun, addObjectEntry, hus]⟩
    · simp [Progress.share, addObjectEntry, he, ht]
    · rintro (_ | _ | _) ho
      · rfl
      · rfl
      · exact absurd rfl ho

/-! ### Sections wherever they stand -/

def readOn (d : Dialect) (s : Surroundings) (p : Progress) (lines : List Line) : Reading Progress :=
  lines.foldlM (fun p line => readLine line d s p) p

theorem readOn_cons_yields {lines : List Line} :
    (readOn d s p (line :: lines)).Yields p' ↔ ∃ q, (readLine line d s p).Yields q ∧ (readOn d s q lines).Yields p' := by
  rw [readOn, List.foldlM_cons, yields_bind]
  rfl

theorem readOn_append_yields {lines lines' : List Line} :
    (readOn d s p (lines ++ lines')).Yields p' ↔
      ∃ q, (readOn d s p lines).Yields q ∧ (readOn d s q lines').Yields p' := by
  rw [readOn, List.foldlM_append, yields_bind]
  rfl

theorem readOn_inner {lines lines' : List Line} (hi : ∀ line ∈ lines, Inner line.text)
    (ht : lines'.map Line.text = lines.map Line.text) (hp : p.part = some part) (hq : q.part = some part)
    (hpb : p.Begun) (hqb : q.Begun) (hs : q.share part = p.share part)
    (h : (readOn d s p lines).Yields p') :
    ∃ q', (readOn d s q lines').Yields q' ∧ q.Reaches part (p'.share part) q' := by
  induction lines generalizing lines' p q with
  | nil =>
    rw [List.map_nil, List.map_eq_nil_iff] at ht
    obtain rfl : p = p' := yields_pure.mp h
    exact ⟨q, ht ▸ yields_pure.mpr rfl, hs, fun _ _ => rfl, hqb⟩
  | cons line lines ih =>
    rw [List.forall_mem_cons] at hi
    rw [List.map_cons, List.map_eq_cons_iff] at ht
    obtain ⟨line', lines', rfl, hte, ht⟩ := ht
    obtain ⟨ts, hts⟩ := Option.isSome_iff_exists.mp hpb
    obtain ⟨us, hus⟩ := Option.isSome_iff_exists.mp hqb
    rw [readOn_cons_yields] at h
    obtain ⟨p₁, hl, h⟩ := h
    rw [readLine_inner hi.1 hp hts] at hl
    -- The line as read where it stands, and as read elsewhere.
    obtain ⟨p₂, hh, hpp, hph⟩ := addEntry_elsewhere rfl hts hts rfl hl
    obtain rfl := hl.unique hh
    obtain ⟨q₁, hth, hqp, hqt⟩ := addEntry_elsewhere hte hts hus hs hl
    obtain ⟨q', hr, hre⟩ := ih hi.2 ht (hpp.trans hp) (hqp.trans hq) hph.begun hqt.begun
      hqt.share_eq h
    refine ⟨q', readOn_cons_yields.mpr ⟨q₁, ?_, hr⟩, hqt.trans hre⟩
    exact (readLine_inner (hte ▸ hi.1) hq hus).mpr hth

def Part.keyword : Part → String
  | .tiles => "TILES"
  | .charmap => "CHARMAP"
  | .objects => "OBJECTS"

theorem readLine_keyword (hl : line.text = part.keyword) (hp : p.Begun) :
    (readLine line d s p).Yields { p with part := some part } := by
  obtain ⟨ts, hts⟩ := Option.isSome_iff_exists.mp hp
  have hend : part.keyword ≠ "END" := by cases part <;> decide
  have hpa : partNamed? (firstWord line) = some part := by
    rw [firstWord, hl]
    cases part <;> decide
  exact (readLine_section (hl ▸ hend) hpa hts).mpr rfl

/-- These texts, as lines of a section, make one share of it another. -/
def Takes (d : Dialect) (s : Surroundings) (part : Part) (texts : List String) (a b : Share) : Prop :=
  ∀ (lines : List Line) (q : Progress), lines.map Line.text = part.keyword :: (texts ++ ["END"]) → q.Begun →
    q.share part = a → ∃ q', (readOn d s q lines).Yields q' ∧ q.Reaches part b q'

theorem takes_of_readOn {texts : List String} {lines : List Line} (hi : ∀ text ∈ texts, Inner text)
    (hl : lines.map Line.text = part.keyword :: (texts ++ ["END"])) (hp : p.Begun)
    (h : (readOn d s p lines).Yields p') : Takes d s part texts (p.share part) (p'.share part) := by
  intro lines' q hl' hq hs
  rw [List.map_eq_cons_iff] at hl hl'
  obtain ⟨first, lines, rfl, hf, hl⟩ := hl
  obtain ⟨first', lines', rfl, hf', hl'⟩ := hl'
  rw [List.map_eq_append_iff] at hl hl'
  obtain ⟨lines, last, rfl, rfl, hla⟩ := hl
  obtain ⟨lines', last', rfl, ht, hla'⟩ := hl'
  simp only [List.map_eq_singleton_iff] at hla hla'
  obtain ⟨last, rfl, hla⟩ := hla
  obtain ⟨last', rfl, hla'⟩ := hla'
  rw [readOn_cons_yields] at h
  obtain ⟨p₁, hp₁, h⟩ := h
  obtain rfl := hp₁.unique (readLine_keyword hf hp)
  rw [readOn_append_yields] at h
  obtain ⟨p₂, hp₂, h⟩ := h
  rw [readOn_cons_yields] at h
  obtain ⟨p₃, hp₃, h⟩ := h
  obtain rfl := (readLine_end hla).mp hp₃
  obtain rfl : _ = p' := yields_pure.mp h
  obtain ⟨q₂, hq₂, hr⟩ := readOn_inner (p := { p with part := some part }) (q := { q with part := some part })
    (fun line hli => hi _ (List.mem_map_of_mem hli)) ht rfl rfl hp hq (by simpa using hs) hp₂
  refine ⟨{ q₂ with part := none }, ?_, ?_⟩
  · refine readOn_cons_yields.mpr ⟨_, readLine_keyword hf' hq, ?_⟩
    refine readOn_append_yields.mpr ⟨q₂, hq₂, ?_⟩
    exact readOn_cons_yields.mpr ⟨_, (readLine_end hla').mpr rfl, yields_pure.mpr rfl⟩
  · refine ⟨by simpa using hr.share_eq, fun other ho => ?_, hr.begun⟩
    simpa using hr.others other ho

/-! ### Sections in any order -/

def sectionLines (body : Part → List String) (order : List Part) : List String :=
  order.flatMap fun part => part.keyword :: (body part ++ ["END"])

variable {body : Part → List String} {order : List Part} {lines : List Line}

theorem takes_of_sections (hi : ∀ part, ∀ text ∈ body part, Inner text) (hn : order.Nodup)
    (hl : lines.map Line.text = sectionLines body order) (hp : p.Begun) (h : (readOn d s p lines).Yields p') :
    (∀ part ∈ order, Takes d s part (body part) (p.share part) (p'.share part)) ∧
      ∀ part ∉ order, p'.share part = p.share part := by
  induction order generalizing lines p with
  | nil =>
    obtain rfl : lines = [] := List.map_eq_nil_iff.mp hl
    obtain rfl : p = p' := yields_pure.mp h
    exact ⟨fun part hpa => absurd hpa List.not_mem_nil, fun _ _ => rfl⟩
  | cons first order ih =>
    rw [List.nodup_cons] at hn
    rw [sectionLines, List.flatMap_cons, List.map_eq_append_iff] at hl
    obtain ⟨lines₁, lines₂, rfl, hl₁, hl₂⟩ := hl
    obtain ⟨p₁, hp₁, h⟩ := readOn_append_yields.mp h
    have ht := takes_of_readOn (hi first) hl₁ hp hp₁
    obtain ⟨p₂, hp₂, hr⟩ := ht lines₁ p hl₁ hp rfl
    obtain rfl := hp₁.unique hp₂
    obtain ⟨hta, hk⟩ := ih hn.2 hl₂ hr.begun h
    refine ⟨?_, ?_⟩
    · intro part hpa
      by_cases hf : part = first
      · subst hf
        rw [hk part hn.1]
        exact ht
      · have hla := hta part ((List.mem_cons.mp hpa).resolve_left hf)
        rwa [hr.others part hf] at hla
    · intro part hpa
      rw [List.mem_cons, not_or] at hpa
      rw [hk part hpa.2, hr.others part hpa.1]

theorem sections_of_takes {b : Part → Share} (hn : order.Nodup)
    (hl : lines.map Line.text = sectionLines body order) (hq : q.Begun)
    (ht : ∀ part ∈ order, Takes d s part (body part) (q.share part) (b part)) :
    ∃ q', (readOn d s q lines).Yields q' ∧ (∀ part ∈ order, q'.share part = b part) ∧
      ∀ part ∉ order, q'.share part = q.share part := by
  induction order generalizing lines q with
  | nil =>
    obtain rfl : lines = [] := List.map_eq_nil_iff.mp hl
    exact ⟨q, yields_pure.mpr rfl, fun part hp => absurd hp List.not_mem_nil, fun _ _ => rfl⟩
  | cons first order ih =>
    rw [List.nodup_cons] at hn
    rw [sectionLines, List.flatMap_cons, List.map_eq_append_iff] at hl
    obtain ⟨lines₁, lines₂, rfl, hl₁, hl₂⟩ := hl
    rw [List.forall_mem_cons] at ht
    obtain ⟨q₁, hq₁, hr⟩ := ht.1 lines₁ q hl₁ hq rfl
    have hla : ∀ part ∈ order, Takes d s part (body part) (q₁.share part) (b part) := by
      intro part hp
      rw [hr.others part (ne_of_mem_of_not_mem hp hn.1)]
      exact ht.2 part hp
    obtain ⟨q', hq', hta, hk⟩ := ih hn.2 hl₂ hr.begun hla
    refine ⟨q', readOn_append_yields.mpr ⟨q₁, hq₁, hq'⟩, ?_, ?_⟩
    · rw [List.forall_mem_cons]
      exact ⟨(hk first hn.1).trans hr.share_eq, hta⟩
    · intro part hp
      rw [List.mem_cons, not_or] at hp
      rw [hk part hp.2, hr.others part hp.1]

theorem sections_reordered {order' : List Part} {lines' : List Line} (hi : ∀ part, ∀ text ∈ body part, Inner text)
    (hn : order.Nodup) (hpe : order.Perm order') (hl : lines.map Line.text = sectionLines body order)
    (hl' : lines'.map Line.text = sectionLines body order') (hp : p.Begun) (h : (readOn d s p lines).Yields p') :
    ∃ q', (readOn d s p lines').Yields q' ∧ ∀ part, q'.share part = p'.share part := by
  obtain ⟨ht, hk⟩ := takes_of_sections hi hn hl hp h
  obtain ⟨q', hq', hta, hk'⟩ := sections_of_takes (b := p'.share) (hpe.nodup_iff.mp hn) hl' hp
    fun part hpa => ht part (hpe.mem_iff.mpr hpa)
  refine ⟨q', hq', fun part => ?_⟩
  by_cases hpa : part ∈ order'
  · exact hta part hpa
  · rw [hk' part hpa, hk part fun h => hpa (hpe.mem_iff.mp h)]

/-! ### The end of the file -/

def finish (s : Surroundings) (p : Progress) : Reading LinkedTileset := do
  let ts ← checkCount s p
  let objects ← readObjects p.names p.objects
  let linked : LinkedTileset :=
    { ts with
      names := p.names
      objects := Table.ofEntries (objects.map fun o => (Text.upper o.name, o)) }
  let linked ← p.charmap.foldlM (fun ts e => e.link ts) linked
  let stamps ← readStamps linked
  return { linked with stamps }

theorem read_eq (s : Surroundings) (text : String) :
    read s text = readOn fullDialect s {} (sourceLines text) >>= finish s := rfl

theorem finish_yields_iff {linked : LinkedTileset} (h : ∀ part, q.share part = p.share part) :
    (finish s p).Yields linked ↔ (finish s q).Yields linked := by
  obtain ⟨ht, hn, -⟩ := Share.tiles.inj (h .tiles)
  have ho := Share.objects.inj (h .objects)
  have hc := Share.charmap.inj (h .charmap)
  have hco : checkCount s q = checkCount s p := by
    unfold checkCount
    rw [ht]
  simp only [finish, yields_bind, hn, hco, readObjects_yields_iff ho, links_yields_iff hc]

/-! ### From lines to files -/

structure StandsInside (raw : String) : Prop where
  unbroken : '\n' ∉ raw.toList
  inner : Inner (lineContent raw)

instance (text : String) : Decidable (Inner text) :=
  decidable_of_iff (text ≠ "END" ∧ (Text.words text).headD "" ∉ headWords)
    ⟨fun h => ⟨h.1, h.2⟩, fun h => ⟨h.not_end, h.head⟩⟩

instance (raw : String) : Decidable (StandsInside raw) :=
  decidable_of_iff ('\n' ∉ raw.toList ∧ Inner (lineContent raw))
    ⟨fun h => ⟨h.1, h.2⟩, fun h => ⟨h.unbroken, h.inner⟩⟩

theorem contents_sectionLines (body : Part → List String) (order : List Part) :
    contents (sectionLines body order) = sectionLines (fun part => contents (body part)) order := by
  induction order with
  | nil => rfl
  | cons part order ih =>
    have hk : contents [part.keyword] = [part.keyword] := by cases part <;> decide
    have hend : contents ["END"] = ["END"] := by decide
    unfold sectionLines at ih ⊢
    rw [List.flatMap_cons, List.flatMap_cons, contents_append, ih, ← List.singleton_append, contents_append,
      contents_append, hk, hend, List.singleton_append]

theorem inner_of_mem_contents {raws : List String} (h : ∀ raw ∈ raws, StandsInside raw) :
    ∀ text ∈ contents raws, Inner text := by
  intro text ht
  obtain ⟨hmem, -⟩ := List.mem_filter.mp ht
  obtain ⟨raw, hraw, rfl⟩ := List.mem_map.mp hmem
  exact (h raw hraw).inner

theorem unbroken_sectionLines (h : ∀ part, ∀ raw ∈ body part, StandsInside raw) :
    ∀ raw ∈ sectionLines body order, '\n' ∉ raw.toList := by
  intro raw hraw
  simp only [sectionLines, List.mem_flatMap, List.mem_cons, List.mem_append, List.not_mem_nil, or_false] at hraw
  obtain ⟨part, -, rfl | hraw | rfl⟩ := hraw
  · cases part <;> decide
  · exact (h part raw hraw).unbroken
  · decide

theorem sourceLines_unlines_cons {first : String} {raws : List String} (hf : lineContent first ≠ "")
    (h : ∀ raw ∈ first :: raws, '\n' ∉ raw.toList) :
    ∃ lines, sourceLines (Text.unlines (first :: raws)) =
      ⟨1, Fields.stripComment first, lineContent first⟩ :: lines ∧ lines.map Line.text = contents raws := by
  have ht := map_text_sourceLines (Text.unlines (first :: raws))
  have hc : contents (first :: raws) = lineContent first :: contents raws := by
    simp [contents, hf]
  rw [Text.lines_unlines h, hc] at ht
  rw [sourceLines, Text.lines_unlines h, List.zipIdx_cons, List.filterMap_cons] at ht ⊢
  have he : (Text.trim (Fields.stripComment first)).isEmpty = false := by simpa [lineContent] using hf
  simp only [he, Bool.false_eq_true, if_false, List.map_cons, List.cons.injEq] at ht ⊢
  exact ⟨_, ⟨rfl, rfl⟩, ht.2⟩

/-- A line that begins a tileset, as the first line of a file. -/
structure IsHeader (raw : String) : Prop where
  unbroken : '\n' ∉ raw.toList
  head : (Text.words (lineContent raw)).headD "" = "TSET"

theorem IsHeader.ne_empty {raw : String} (h : IsHeader raw) : lineContent raw ≠ "" := by
  intro he
  have hh := h.head
  rw [he] at hh
  exact absurd hh (by decide)

theorem IsHeader.begun {raw : String} (h : IsHeader raw) (hr : (readLine line d s p).Yields p')
    (hl : line.text = lineContent raw) : p'.Begun := by
  have hh := h.head
  rw [← hl] at hh
  have hend : line.text ≠ "END" := by
    intro hend
    rw [hend] at hh
    exact absurd hh (by decide)
  unfold readLine at hr
  rw [if_neg hend] at hr
  dsimp only at hr
  rw [if_pos hh] at hr
  simp only [yields_bind, yields_pure] at hr
  obtain ⟨ts, -, rfl⟩ := hr
  rfl

/-- A file of a header and sections that is read without an issue is read so with its sections in any order, and gives the
same tileset: the same tiles in the same order, objects, map characters and stamps. -/
theorem read_sections_perm {header : String} {order' : List Part} {linked : LinkedTileset} (hheader : IsHeader header)
    (hbody : ∀ part, ∀ raw ∈ body part, StandsInside raw) (hnodup : order.Nodup) (hperm : order.Perm order')
    (h : (read s (Text.unlines (header :: sectionLines body order))).Yields linked) :
    (read s (Text.unlines (header :: sectionLines body order'))).Yields linked := by
  have hlines : ∀ order, ∃ lines, sourceLines (Text.unlines (header :: sectionLines body order)) =
      ⟨1, Fields.stripComment header, lineContent header⟩ :: lines ∧
        lines.map Line.text = sectionLines (fun part => contents (body part)) order := by
    intro order
    have hraws : ∀ raw ∈ sectionLines body order, '\n' ∉ raw.toList := unbroken_sectionLines hbody
    obtain ⟨lines, hlines, htexts⟩ := sourceLines_unlines_cons hheader.ne_empty
      (List.forall_mem_cons.mpr ⟨hheader.unbroken, hraws⟩)
    exact ⟨lines, hlines, htexts.trans (contents_sectionLines body order)⟩
  obtain ⟨lines, hlines₁, htexts⟩ := hlines order
  obtain ⟨lines', hlines₂, htexts'⟩ := hlines order'
  rw [read_eq, hlines₁, yields_bind] at h
  obtain ⟨p, hp, hfinish⟩ := h
  obtain ⟨p₁, hp₁, hrest⟩ := readOn_cons_yields.mp hp
  obtain ⟨q, hq, hshares⟩ := sections_reordered (fun part => inner_of_mem_contents (hbody part)) hnodup hperm htexts
    htexts' (hheader.begun hp₁ rfl) hrest
  rw [read_eq, hlines₂, yields_bind]
  exact ⟨q, readOn_cons_yields.mpr ⟨p₁, hp₁, hq⟩, (finish_yields_iff hshares).mp hfinish⟩

def crateBody : Part → List String
  | .tiles => ["F chars=1,2,3,4 color=1", "L id=7 chars=5,6,7,8 color=2"]
  | .charmap => [". F ; floor", "", "c CRATE"]
  | .objects => ["Crate size=1x2 tiles=L,F"]

def crateTileset : LinkedTileset where
  name := "t"
  declaredCount := 2
  multicolor1 := 1
  multicolor2 := 2
  tiles := [(0, ⟨0, "F", ⟨1, 2, 3, 4⟩, .single, ⟨1, 0, 0, 0⟩, 0⟩), (7, ⟨7, "L", ⟨5, 6, 7, 8⟩, .single, ⟨2, 0, 0, 0⟩, 0⟩)]
  names := [("F", 0), ("L", 7)]
  objects := [("CRATE", ⟨"Crate", 1, 2, ["L", "F"], some "c"⟩)]
  charmap := [(".", 0)]
  stamps := [("c", ⟨"Crate", 1, 2, [7, 0], "c"⟩)]

theorem standsInside_crate : ∀ part, ∀ raw ∈ crateBody part, StandsInside raw
  | .tiles => by decide +kernel
  | .charmap => by decide +kernel
  | .objects => by decide +kernel

theorem isHeader_crate : IsHeader "TSET tileSize=2x2 bgColor=0 mc1Color=1 mc2Color=2" :=
  ⟨by decide +kernel, by decide +kernel⟩

theorem read_crate :
    (read ⟨"t.tset", fun _ => false⟩ (Text.unlines ("TSET tileSize=2x2 bgColor=0 mc1Color=1 mc2Color=2" ::
      sectionLines crateBody [.tiles, .objects, .charmap]))).Yields crateTileset := by
  rw [read, sourceLines, Text.lines_unlines
    (List.forall_mem_cons.mpr ⟨isHeader_crate.unbroken, unbroken_sectionLines standsInside_crate⟩)]
  decide +kernel

/-- Map characters may come before what they stand for, and objects before their tiles. -/
theorem read_sections_perm_crate :
    (read ⟨"t.tset", fun _ => false⟩ (Text.unlines ("TSET tileSize=2x2 bgColor=0 mc1Color=1 mc2Color=2" ::
      sectionLines crateBody [.charmap, .objects, .tiles]))).Yields crateTileset :=
  read_sections_perm isHeader_crate standsInside_crate (by decide) (by decide) read_crate

end Tileset

end EscapeRoom
