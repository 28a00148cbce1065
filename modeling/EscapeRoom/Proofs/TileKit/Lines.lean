import Mathlib.Data.List.Dedup
import Mathlib.Data.List.Perm.Subperm
import EscapeRoom.Proofs.Level.Printing
import EscapeRoom.Proofs.TileKit.Kits

/-!
# The lines of a kit's tileset

What stands on the lines of the text that a kit is listed in, comments and blank lines left out: a header, a map
character for every name, the objects that have all their tiles, and the tiles in the order of their numbers.
-/

namespace EscapeRoom

open Text (Unbroken unlines)
open Level (IsBare IsQuotable lineText)

def IsComment (s : String) : Prop :=
  s = "" ∨ ∃ rest, s = " ; " ++ rest ∧ Unbroken rest

theorem IsComment.unbroken {s : String} (h : IsComment s) : Unbroken s := by
  rcases h with rfl | ⟨rest, rfl, h⟩
  · decide
  · exact Text.unbroken_append.mpr ⟨by decide, h⟩

theorem IsLine.unbroken {t : String} (h : IsLine t) : Unbroken t :=
  ⟨fun hc => h.plain _ hc (by simp), fun hc => h.plain _ hc (by simp)⟩

theorem lineContent_comment {t s : String} (h : IsLine t) (hs : IsComment s) : lineContent (t ++ s) = t := by
  have hb : lineContent t = t := by
    have hbl : ∀ c ∈ "".toList, Text.isBlank c = true ∧ c ≠ ';' := by simp
    simpa using lineContent_append hbl h
  rcases hs with rfl | ⟨rest, rfl, -⟩
  · simpa using hb
  · have hse : ∀ c ∈ t.toList, (c != ';') = true := by
      intro c hc
      rw [bne_iff_ne]
      rintro rfl
      exact h.plain _ hc (by simp)
    have ht : (t ++ (" ; " ++ rest)).toList.takeWhile (· != ';') = t.toList ++ [' '] := by
      have hl : (" ; " ++ rest).toList = ' ' :: ';' :: ' ' :: rest.toList := by simp
      rw [String.toList_append, hl, List.takeWhile_append_of_pos hse]
      rfl
    have hend : Text.trimEnd (t.toList ++ [' ']) = t.toList := by
      have hbl : Text.isBlank ' ' = true := by decide
      rw [Text.trimEnd, List.reverse_append, List.reverse_singleton, List.singleton_append,
        List.dropWhile_cons_of_pos hbl]
      exact Text.trimEnd_of_trimChars h.trimmed
    rw [lineContent, Fields.stripComment, ht, hend, String.ofList_toList]
    exact Text.trim_eq_self_iff.mpr h.trimmed

namespace Prints

variable {raws texts : List String} {t s : String}

theorem commented (h : IsLine t) (hs : IsComment s) : Prints [t ++ s] [t] := by
  refine ⟨?_, by simp [contents, lineContent_comment h hs, h.ne_empty]⟩
  rw [List.forall_mem_singleton]
  exact Text.unbroken_append.mpr ⟨h.unbroken, hs.unbroken⟩

theorem comment (hs : Unbroken s) : Prints [";" ++ s] [] := by
  have hl : (";" ++ s).toList = ';' :: s.toList := by simp
  have hc : lineContent (";" ++ s) = "" := by
    rw [lineContent, Fields.stripComment, hl, List.takeWhile_cons_of_neg (by simp)]
    rfl
  refine ⟨?_, by simp [contents, hc]⟩
  rw [List.forall_mem_singleton]
  exact Text.unbroken_append.mpr ⟨by decide, hs⟩

theorem nil : Prints [] [] :=
  ⟨by simp, rfl⟩

theorem lines (h : ∀ t ∈ texts, IsLine t) : Prints texts texts := by
  induction texts with
  | nil => exact nil
  | cons t texts ih =>
    rw [List.forall_mem_cons] at h
    exact (line h.1).append (ih h.2)

theorem cons (h : Prints [s] texts) {texts' : List String} (h' : Prints raws texts') :
    Prints (s :: raws) (texts ++ texts') :=
  h.append h'

end Prints

namespace TileKit

variable {names : List String} {s : SharedColors} {taken : List Char}

/-- The keys of the fields that the lines of a listing have. -/
theorem isName_key : ∀ key ∈ ["size", "tiles", "chars", "colors", "flags", "name", "tileSize", "bgColor", "mc1Color",
    "mc2Color", "charset"], Level.IsName key := by
  decide +kernel

theorem isBare_of_isNameChar {s : String} (hne : s ≠ "") (h : ∀ c ∈ s.toList, Text.isNameChar c = true) : IsBare s :=
  ⟨hne, fun c hc => Level.isNameChar_bare (h c hc)⟩

theorem IsTileName.isBare {s : String} (h : IsTileName s) : IsBare s :=
  isBare_of_isNameChar h.1 h.isNameChar

theorem IsTileName.printable {s : String} (h : IsTileName s) : (Piece.plain s).Printable :=
  Piece.plain_printable h.isBare fun hc => absurd (h.isNameChar _ hc) (by decide)

/-! ### Map characters -/

/-- The map characters that names are given one after the other. -/
def picks (taken : List Char) : List String → List Char
  | [] => []
  | name :: rest => pickChar taken name :: picks (pickChar taken name :: taken) rest

def mapChars : List Char :=
  '?' :: freeChars

theorem pickChar_spec (taken : List Char) (name : String) :
    pickChar taken name ∈ freeChars ∧ pickChar taken name ∉ taken ∨ pickChar taken name = '?' ∧ freeChars ⊆ taken := by
  have hs : ∀ e ∈ seedChars, e.2 ∈ freeChars := by decide
  unfold pickChar
  dsimp only
  cases hf : List.find? _ _ with
  | none =>
    refine .inr ⟨rfl, fun c hc => ?_⟩
    rw [List.find?_eq_none] at hf
    simpa using hf c (List.mem_append_right _ hc)
  | some c =>
    refine .inl ⟨?_, by simpa using List.find?_some hf⟩
    rcases List.mem_append.mp (List.mem_of_find?_eq_some hf) with hc | hc
    · obtain ⟨e, he, hc⟩ := List.mem_filterMap.mp hc
      split at hc
      · exact Option.some.inj hc ▸ hs e he
      · cases hc
    · exact hc

theorem pickChar_mem (taken : List Char) (name : String) : pickChar taken name ∈ mapChars := by
  rcases pickChar_spec taken name with ⟨hc, -⟩ | ⟨hc, -⟩
  · exact List.mem_cons_of_mem _ hc
  · exact hc ▸ List.mem_cons_self

theorem length_picks (taken : List Char) (names : List String) : (picks taken names).length = names.length := by
  induction names generalizing taken with
  | nil => rfl
  | cons name names ih => rw [picks, List.length_cons, ih, List.length_cons]

theorem picks_append (taken : List Char) (as bs : List String) :
    picks taken (as ++ bs) = picks taken as ++ picks ((picks taken as).reverse ++ taken) bs := by
  induction as generalizing taken with
  | nil => rfl
  | cons a as ih =>
    rw [List.cons_append, picks, picks, ih, List.cons_append, List.reverse_cons, List.append_assoc,
      List.singleton_append]

theorem mem_mapChars_of_mem_picks {c : Char} (h : c ∈ picks taken names) : c ∈ mapChars := by
  induction names generalizing taken with
  | nil => cases h
  | cons name names ih =>
    rw [picks, List.mem_cons] at h
    rcases h with rfl | h
    · exact pickChar_mem _ _
    · exact ih h

theorem length_dedup_mapChars : mapChars.dedup.length = 71 := by
  decide +kernel

/-- Characters that were picked for different names are different as long as there are some left. -/
structure Taken (taken : List Char) : Prop where
  nodup : taken.Nodup
  subset : taken ⊆ mapChars
  last : '?' ∈ taken → freeChars ⊆ taken

theorem Taken.pick (h : Taken taken) (hlen : taken.length < 71) (name : String) :
    Taken (pickChar taken name :: taken) := by
  have hsub : pickChar taken name :: taken ⊆ mapChars := List.cons_subset.mpr ⟨pickChar_mem taken name, h.subset⟩
  have hg := List.subset_cons_self (pickChar taken name) taken
  rcases pickChar_spec taken name with ⟨hf, hnew⟩ | ⟨hl, hall⟩
  · refine ⟨List.nodup_cons.mpr ⟨hnew, h.nodup⟩, hsub, fun hq => ?_⟩
    rcases List.mem_cons.mp hq with hq | hq
    · rw [← hq] at hf
      exact absurd hf (by decide)
    · exact List.Subset.trans (h.last hq) hg
  · refine ⟨List.nodup_cons.mpr ⟨fun hmem => ?_, h.nodup⟩, hsub, fun _ => List.Subset.trans hall hg⟩
    have hmap : mapChars.dedup ⊆ taken := by
      intro c hc
      rcases List.mem_cons.mp (List.mem_dedup.mp hc) with rfl | hc
      · exact hl ▸ hmem
      · exact hall hc
    have hle := (List.subperm_of_subset (List.nodup_dedup mapChars) hmap).length_le
    rw [length_dedup_mapChars] at hle
    omega

theorem Taken.picks (h : Taken taken) (hlen : taken.length + names.length ≤ 71) :
    Taken ((TileKit.picks taken names).reverse ++ taken) := by
  induction names generalizing taken with
  | nil => exact h
  | cons name names ih =>
    rw [List.length_cons] at hlen
    rw [TileKit.picks, List.reverse_cons, List.append_assoc, List.singleton_append]
    refine ih (h.pick (by omega) name) ?_
    rw [List.length_cons]
    omega

theorem nodup_picks_iff : (picks [] names).Nodup ↔ names.length ≤ 71 := by
  constructor
  · intro h
    rw [← length_picks [] names, ← length_dedup_mapChars]
    refine (List.subperm_of_subset h fun c hc => ?_).length_le
    exact List.mem_dedup.mpr (mem_mapChars_of_mem_picks hc)
  · intro h
    have hn : Taken [] := ⟨List.nodup_nil, by simp, by simp⟩
    simpa using (hn.picks (by simpa using h)).nodup

def entryText (c : Char) (name : String) : String :=
  Text.join " " [String.singleton c, name]

theorem charmapText_eq (taken : List Char) (lines : List CharmapLine) :
    charmapText taken lines =
      (unlines (List.zipWith (fun c (line : CharmapLine) => entryText c line.name ++ line.comment)
        (picks taken (lines.map (·.name))) lines), (picks taken (lines.map (·.name))).reverse ++ taken) := by
  induction lines generalizing taken with
  | nil => rfl
  | cons line lines ih =>
    rw [charmapText, List.map_cons, picks, List.zipWith_cons_cons, Text.unlines_cons, List.reverse_cons]
    dsimp only
    rw [ih]
    simp [entryText, Text.join, String.append_assoc]

theorem isLine_entryText {c : Char} {name : String} (hc : c ∈ mapChars) (hn : IsTileName name) :
    IsLine (entryText c name) := by
  have hch : ∀ c ∈ mapChars, Text.isBlank c = false ∧ c ∉ [';', '\n', '\r'] := by decide +kernel
  refine isLine_join (by simp) ?_
  simp only [List.forall_mem_cons, List.not_mem_nil, false_implies, implies_true, and_true]
  exact ⟨isLine_of_forall (by simp) (by simpa using hch c hc), hn.isBare.isLine⟩

theorem prints_charmapText (taken : List Char) {lines : List CharmapLine} (hn : ∀ line ∈ lines, IsTileName line.name)
    (hc : ∀ line ∈ lines, IsComment line.comment) :
    Prints (List.zipWith (fun c (line : CharmapLine) => entryText c line.name ++ line.comment)
      (picks taken (lines.map (·.name))) lines)
      (List.zipWith entryText (picks taken (lines.map (·.name))) (lines.map (·.name))) := by
  induction lines generalizing taken with
  | nil => exact .nil
  | cons line lines ih =>
    rw [List.forall_mem_cons] at hn hc
    rw [List.map_cons, picks, List.zipWith_cons_cons, List.zipWith_cons_cons]
    exact .cons (.commented (isLine_entryText (pickChar_mem _ _) hn.1) hc.1) (ih _ hn.2 hc.2)

/-! ### Listings -/

/-- The kit is listed with its texts on one line each. -/
structure Listing.Sound (l : Listing) : Prop where
  plain : ∀ t ∈ l.plain, t.Sound
  aliases : ∀ t ∈ l.aliases, t.Sound
  groups : ∀ g ∈ l.groups, ∀ t ∈ g.tiles, t.Sound ∧ ∃ key, objectKey t.variant = .ok key

theorem sound_listing {tiles : List KitTile} {l : Listing} (hti : ∀ t ∈ tiles, t.Sound)
    (h : Listing.of tiles = .ok l) : l.Sound := by
  rw [Listing.of, except_bind_eq_ok] at h
  obtain ⟨groups, hgr, h⟩ := h
  obtain rfl := Except.ok.inj h
  have hmem := mem_of_mem_groupsOf hgr
  refine ⟨fun t ht => hti t (List.mem_filter.mp ht).1, fun t ht => ?_, fun g hg t ht => ?_⟩
  · simp only [List.mem_flatMap, List.mem_map] at ht
    obtain ⟨g, hg, u, hu, rfl⟩ := ht
    exact (hti u (hmem g (List.mem_filter.mp hg).1 u hu).1).ofAlias
  · obtain ⟨ht, hkey⟩ := hmem g hg t ht
    exact ⟨hti t ht, hkey⟩

namespace Listing

variable {l : Listing} {names : Table String String} {e : ObjectGroup × List String} {g : ObjectGroup}

/-- The groups of tiles that make objects of several cells. -/
def largeGroups (l : Listing) : List ObjectGroup :=
  l.groups.filter (! isSingle ·.size)

def symbols (l : Listing) : List String :=
  l.plain.map (·.name) ++ l.aliases.map (·.name) ++ l.largeGroups.map (·.name)

theorem isComment_tileComment {role comment : String} {variant : Json} (hr : Unbroken role)
    (hv : variant.OneLine) (hn : ∀ e ∈ names, Unbroken e.2)
    (h : tileComment names role variant = .ok comment) : IsComment comment := by
  rw [tileComment, except_bind_eq_ok] at h
  obtain ⟨text, ht, h⟩ := h
  obtain rfl := Except.ok.inj h
  have ht : Unbroken text := by
    cases hv with
    | str hs =>
      obtain rfl := Except.ok.inj ht
      split
      · decide
      · rw [Table.getD]
        cases hget : Table.get? names _ with
        | none => exact hs
        | some name => exact hn _ (Table.mem_of_get? hget)
    | _ => cases ht
  have hp : ∀ part ∈ [role, if text.isEmpty then "" else "[" ++ text ++ "]"], Unbroken part := by
    simp only [List.forall_mem_cons, List.not_mem_nil, false_implies, implies_true, and_true]
    refine ⟨hr, ?_⟩
    split
    · decide
    · exact Text.unbroken_append.mpr ⟨Text.unbroken_append.mpr ⟨by decide, ht⟩, by decide⟩
  generalize [role, if text.isEmpty then "" else "[" ++ text ++ "]"] = parts at hp
  split
  · exact .inl rfl
  · exact .inr ⟨_, rfl, Text.unbroken_join (by decide) fun part hpa => hp part (List.mem_filter.mp hpa).1⟩

/-- The lines under a heading, and a blank line behind them. -/
def headedRaws (heading : String) (taken : List Char) (lines : List CharmapLine) : List String :=
  if lines.isEmpty then []
  else (";" ++ heading) :: List.zipWith (fun c (line : CharmapLine) => entryText c line.name ++ line.comment)
    (picks taken (lines.map (·.name))) lines ++ [""]

theorem headed_eq (he : String) (lines : List CharmapLine) (taken : List Char) :
    headed (";" ++ he ++ "\n") lines taken =
      (unlines (headedRaws he taken lines), (picks taken (lines.map (·.name))).reverse ++ taken) := by
  unfold headed headedRaws
  split
  · rename_i hnil
    obtain rfl := List.isEmpty_iff.mp hnil
    rfl
  · rw [charmapText_eq]
    simp [unlines, String.append_assoc]

theorem prints_headedRaws {he : String} (taken : List Char) {lines : List CharmapLine} (hh : Unbroken he)
    (hn : ∀ line ∈ lines, IsTileName line.name) (hc : ∀ line ∈ lines, IsComment line.comment) :
    Prints (headedRaws he taken lines)
      (List.zipWith entryText (picks taken (lines.map (·.name))) (lines.map (·.name))) := by
  unfold headedRaws
  split
  · rename_i hnil
    obtain rfl := List.isEmpty_iff.mp hnil
    exact .nil
  · have hl := (Prints.comment hh).append ((prints_charmapText taken hn hc).append .blank)
    simpa using hl

theorem charmapLines_of_mapM {tiles : List KitTile} {lines : List CharmapLine} (hti : ∀ t ∈ tiles, t.Sound)
    (hn : ∀ e ∈ names, Unbroken e.2)
    (h : tiles.mapM (fun t => do return (⟨t.name, ← tileComment names t.role t.variant⟩ : CharmapLine)) = .ok lines) :
    lines.map (·.name) = tiles.map (·.name) ∧ (∀ line ∈ lines, IsTileName line.name) ∧
      ∀ line ∈ lines, IsComment line.comment := by
  have hl : ∀ t ∈ tiles, ∀ line, (do return (⟨t.name, ← tileComment names t.role t.variant⟩ : CharmapLine)) =
      Except.ok line → line.name = t.name ∧ IsTileName line.name ∧ IsComment line.comment := by
    intro t ht line hl
    rw [except_bind_eq_ok] at hl
    obtain ⟨comment, hc, hl⟩ := hl
    obtain rfl := Except.ok.inj hl
    have hs := hti t ht
    exact ⟨rfl, hs.name, isComment_tileComment hs.role hs.variant hn hc⟩
  have hall := forall₂_of_mapM_ok h
  refine ⟨?_, forall_mem_of_forall₂ hall fun t ht line h => (hl t ht line h).2.1,
    forall_mem_of_forall₂ hall fun t ht line h => (hl t ht line h).2.2⟩
  clear h hti
  induction hall with
  | nil => rfl
  | cons hx _ ih =>
    rw [List.forall_mem_cons] at hl
    rw [List.map_cons, List.map_cons, (hl.1 _ hx).1, ih hl.2]

theorem isTileName_groupName (g : ObjectGroup) : IsTileName g.name := by
  rw [ObjectGroup.name]
  exact isTileName_tileName _

theorem zipWith_entryText_append (taken : List Char) (as bs : List String) :
    List.zipWith entryText (picks taken (as ++ bs)) (as ++ bs) =
      List.zipWith entryText (picks taken as) as ++
        List.zipWith entryText (picks ((picks taken as).reverse ++ taken) bs) bs := by
  rw [picks_append, List.zipWith_append (length_picks taken as)]

theorem prints_charmap {text : String} (hl : l.Sound) (hn : ∀ e ∈ names, Unbroken e.2)
    (h : l.charmap names = .ok text) :
    ∃ raws, text = unlines raws ∧
      Prints raws ("CHARMAP" :: List.zipWith entryText (picks [] l.symbols) l.symbols ++ ["END"]) := by
  simp only [charmap, except_bind_eq_ok] at h
  obtain ⟨plain, hpl, single, hsi, h⟩ := h
  obtain ⟨hpn, hpt, hpc⟩ := charmapLines_of_mapM hl.plain hn hpl
  obtain ⟨hsn, hst, hsc⟩ := charmapLines_of_mapM hl.aliases hn hsi
  obtain ⟨large, hla⟩ : ∃ large, l.largeGroups.map (fun g => (⟨g.name, " ; " ++ g.label⟩ : CharmapLine)) = large :=
    ⟨_, rfl⟩
  have hln : large.map (·.name) = l.largeGroups.map (·.name) := by
    simp only [← hla, List.map_map, Function.comp_def]
  have hlt : ∀ line ∈ large, IsTileName line.name := by
    simp only [← hla, List.forall_mem_map, isTileName_groupName, implies_true]
  have hlc : ∀ line ∈ large, IsComment line.comment := by
    rw [← hla, List.forall_mem_map]
    exact fun g hg => .inr ⟨g.label, rfl, unbroken_label (hl.groups g (List.mem_filter.mp hg).1)⟩
  have hp : "; NON-OBJECT TILES\n" = ";" ++ " NON-OBJECT TILES" ++ "\n" := rfl
  have hs : "; 1x1 OBJECT TILES\n" = ";" ++ " 1x1 OBJECT TILES" ++ "\n" := rfl
  rw [← largeGroups, hla, hp, hs, headed_eq, headed_eq, charmapText_eq, hpn, hsn, hln] at h
  dsimp only at h
  have hpl := prints_headedRaws [] (by decide : Unbroken " NON-OBJECT TILES") hpt hpc
  rw [hpn] at hpl
  rw [symbols, List.append_assoc, zipWith_entryText_append, zipWith_entryText_append]
  generalize (picks [] (l.plain.map (·.name))).reverse ++ [] = taken at h
  have hsi := prints_headedRaws taken (by decide : Unbroken " 1x1 OBJECT TILES") hst hsc
  rw [hsn] at hsi
  generalize (picks taken (l.aliases.map (·.name))).reverse ++ taken = taken' at h
  have hls := prints_charmapText taken' hlt hlc
  rw [hln] at hls
  have hend : Prints ["END", ""] ["END"] := (Prints.line (by decide)).append .blank
  have hli := (Prints.line (by decide : IsLine "CHARMAP")).append
    (hpl.append (hsi.append (hls.append hend)))
  refine ⟨_, ?_, by simpa only [List.append_assoc, List.cons_append, List.nil_append] using hli⟩
  obtain rfl := Except.ok.inj h
  simp only [Text.unlines_cons, Text.unlines_append, String.append_assoc]
  rfl

/-! ### Objects -/

/-- The names of the tiles of an object row by row, if it has all of them. -/
def cellNames (g : ObjectGroup) : Option (List String) :=
  ((List.range g.size.2.toNat).flatMap fun dy => (List.range g.size.1.toNat).map fun dx => nameAt? g dx dy).mapM id

def objectPieces (g : ObjectGroup) (names : List String) : List Piece :=
  [.bare "size" (toString g.size.1 ++ "x" ++ toString g.size.2), .bare "tiles" (Text.join "," names)]

def objectText (g : ObjectGroup) (names : List String) : String :=
  lineText (.plain g.name :: objectPieces g names)

/-- The objects of several cells that have all their tiles, with the names of these. -/
def wholeObjects (l : Listing) : List (ObjectGroup × List String) :=
  l.largeGroups.filterMap fun g => (cellNames g).map (Prod.mk g)

theorem objectLine_eq (g : ObjectGroup) :
    objectLine g = (cellNames g).elim "" fun names => objectText g names ++ "\n" := by
  unfold objectLine cellNames
  dsimp only
  split
  · rename_i hn
    rw [hn]
    rfl
  · rename_i names hn
    rw [hn]
    have hs : " size=" = " " ++ ("size" ++ "=") := rfl
    have ht : " tiles=" = " " ++ ("tiles" ++ "=") := rfl
    simp only [Option.elim_some, objectText, lineText, objectPieces, List.map_cons, List.map_nil, Piece.text, Text.join, hs, ht,
      String.append_assoc]

theorem objects_eq (l : Listing) : l.objects =
    if l.groups.isEmpty then ""
    else unlines ("OBJECTS" :: (l.wholeObjects.map (fun o => objectText o.1 o.2) ++ ["END", ""])) := by
  have hl : ∀ gs : List ObjectGroup, String.join (gs.map objectLine) =
      unlines ((gs.filterMap fun g => (cellNames g).map (Prod.mk g)).map fun o => objectText o.1 o.2) := by
    intro gs
    induction gs with
    | nil => rfl
    | cons g gs ih =>
      rw [List.map_cons, String.join_cons, ih, objectLine_eq]
      cases hn : cellNames g with
      | none => simp [hn]
      | some names => simp [hn, Text.unlines_cons]
  unfold objects
  split
  · rfl
  · rw [hl, Text.unlines_cons, Text.unlines_append]
    rfl

theorem mapM_id_eq_some {α : Type} {xs : List (Option α)} {ys : List α} : xs.mapM id = some ys ↔ xs = ys.map some := by
  induction xs generalizing ys with
  | nil => cases ys <;> simp
  | cons x xs ih =>
    cases x with
    | none => cases ys <;> simp
    | some x =>
      rw [List.mapM_cons, id, Option.bind_eq_bind, Option.bind_some, Option.bind_eq_bind, Option.bind_eq_some_iff]
      simp only [ih, Option.pure_def, Option.some.injEq]
      constructor
      · rintro ⟨zs, rfl, rfl⟩
        rfl
      · intro h
        cases ys with
        | nil => cases h
        | cons y ys =>
          rw [List.map_cons, List.cons.injEq, Option.some.injEq] at h
          exact ⟨ys, h.2, by rw [h.1]⟩

theorem cellNames_eq_some {names : List String} : cellNames g = some names ↔
    (List.range g.size.2.toNat).flatMap (fun dy => (List.range g.size.1.toNat).map fun dx => nameAt? g dx dy) =
      names.map some :=
  mapM_id_eq_some

theorem mem_of_nameAt? {dx dy : Nat} {name : String} (h : nameAt? g dx dy = some name) :
    ∃ t ∈ g.tiles, t.offset = ((dx : Int), (dy : Int)) ∧ t.name = name := by
  obtain ⟨t, ht, rfl⟩ := Option.map_eq_some_iff.mp h
  obtain ⟨hmem, ho⟩ := List.mem_filter.mp (List.mem_of_getLast? ht)
  exact ⟨t, hmem, by simpa using ho, rfl⟩

theorem exists_tile_of_cellNames {names : List String} (h : cellNames g = some names) {name : String}
    (hn : name ∈ names) : ∃ t ∈ g.tiles, t.name = name := by
  have hmem : some name ∈ names.map some := List.mem_map_of_mem hn
  rw [← cellNames_eq_some.mp h] at hmem
  simp only [List.mem_flatMap, List.mem_map] at hmem
  obtain ⟨dy, -, dx, -, hat⟩ := hmem
  obtain ⟨t, ht, -, hn⟩ := mem_of_nameAt? hat
  exact ⟨t, ht, hn⟩

theorem mem_wholeObjects {o : ObjectGroup × List String} :
    o ∈ l.wholeObjects ↔ o.1 ∈ l.largeGroups ∧ cellNames o.1 = some o.2 := by
  simp only [wholeObjects, List.mem_filterMap, Option.map_eq_some_iff]
  constructor
  · rintro ⟨g, hg, names, hn, rfl⟩
    exact ⟨hg, hn⟩
  · rintro ⟨hg, hn⟩
    exact ⟨o.1, hg, o.2, hn, rfl⟩

structure Whole (e : ObjectGroup × List String) : Prop where
  size : 0 < e.1.size.1 ∧ 0 < e.1.size.2
  cells : cellNames e.1 = some e.2
  names : ∀ name ∈ e.2, IsTileName name

theorem Sound.whole (hl : l.Sound) (he : e ∈ l.wholeObjects) : Whole e := by
  obtain ⟨hg, hc⟩ := mem_wholeObjects.mp he
  have hti := hl.groups e.1 (List.mem_filter.mp hg).1
  refine ⟨?_, hc, fun name hn => ?_⟩
  · have ho := (hti e.1.first List.mem_cons_self).1.offset
    rw [ObjectGroup.size]
    omega
  · obtain ⟨t, ht, rfl⟩ := exists_tile_of_cellNames hc hn
    exact (hti t ht).1.name

theorem Whole.length_names (he : Whole e) : e.2.length = e.1.size.2.toNat * e.1.size.1.toNat := by
  have hl := congrArg List.length (cellNames_eq_some.mp he.cells)
  simpa [List.length_flatMap] using hl.symm

theorem Whole.names_ne_nil (he : Whole e) : e.2 ≠ [] := by
  have hpos := he.size
  rw [← List.length_pos_iff, he.length_names]
  exact Nat.mul_pos (by omega) (by omega)

theorem Whole.printable (he : Whole e) : ∀ q ∈ .plain e.1.name :: objectPieces e.1 e.2, q.Printable := by
  have hn : IsBare (Text.join "," e.2) :=
    Level.isBare_join (by decide) he.names_ne_nil fun name hna => (he.names name hna).isBare
  have hs : IsBare (toString e.1.size.1 ++ "x" ++ toString e.1.size.2) :=
    Level.isBare_pair "x" (by decide) (Level.isBare_toString _) (Level.isBare_toString _)
  simp only [objectPieces, List.forall_mem_cons, List.not_mem_nil, false_implies, implies_true, and_true]
  exact ⟨(isTileName_groupName e.1).printable, Piece.bare_printable (isName_key _ (by simp)) hs,
    Piece.bare_printable (isName_key _ (by simp)) hn⟩

/-- What stands on the lines of the section of objects. -/
def objectLines (l : Listing) : List String :=
  if l.groups.isEmpty then [] else "OBJECTS" :: (l.wholeObjects.map (fun o => objectText o.1 o.2) ++ ["END"])

theorem prints_objects (hl : l.Sound) : ∃ raws, l.objects = unlines raws ∧ Prints raws l.objectLines := by
  rw [objects_eq, objectLines]
  split
  · exact ⟨[], rfl, .nil⟩
  · refine ⟨_, rfl, ?_⟩
    have ho : ∀ t ∈ l.wholeObjects.map fun o => objectText o.1 o.2, IsLine t := by
      rw [List.forall_mem_map]
      exact fun e he => Piece.isLine_lineText (by simp) (hl.whole he).printable
    have hend : Prints ["END", ""] ["END"] := (Prints.line (by decide)).append .blank
    exact (Prints.line (by decide : IsLine "OBJECTS")).cons ((Prints.lines ho).append hend)

/-! ### Tiles -/

def tilePieces (c : Charset) (t : KitTile) : List Piece :=
  [.bare "chars" (slotText c t), .bare "colors" (colorText t), .bare "flags" (Text.join "|" (flagList t.flags))]

def tileText (c : Charset) (t : KitTile) : String :=
  lineText (.plain t.name :: tilePieces c t)

theorem tileLine_eq (c : Charset) (t : KitTile) : tileLine c t = tileText c t ++ "\n" := by
  have hc : " chars=" = " " ++ ("chars" ++ "=") := rfl
  have hco : " colors=" = " " ++ ("colors" ++ "=") := rfl
  have hf : " flags=" = " " ++ ("flags" ++ "=") := rfl
  simp only [tileLine, tileText, lineText, tilePieces, flagList, List.map_cons, List.map_nil, Piece.text, Text.join, hc, hco, hf,
    String.append_assoc]

def PlainFlags (flags : String) : Prop :=
  ∀ name ∈ flagList flags, ∀ c ∈ name.toList, c ∉ ['"', ';']

instance (flags : String) : Decidable (PlainFlags flags) :=
  inferInstanceAs (Decidable (∀ _ ∈ _, _))

theorem plainFlags_of_known {flags : String} (h : ∀ flag ∈ flagList flags, flag ∈ flagNames) : PlainFlags flags := by
  have hk : ∀ name ∈ flagNames, ∀ c ∈ name.toList, c ∉ ['"', ';'] := by decide
  exact fun flag hf => hk flag (h flag hf)

variable {c : Charset} {t : KitTile}

theorem isBare_colorName {n : Nat} (h : n < 16) : IsBare (colorName n) :=
  isBare_of_isNameChar (isNameChar_colorName n h).1 (isNameChar_colorName n h).2

theorem isBlank_of_separatesFlags {d : Char} (h : separatesFlags d = false) : Text.isBlank d = false := by
  rw [separatesFlags, Bool.or_eq_false_iff] at h
  exact h.2

/-- A tile whose line can be read: its slots are bytes and its flags have no quotes and no semicolons. -/
structure Legible (c : Charset) (t : KitTile) : Prop where
  sound : t.Sound
  flags : PlainFlags t.flags
  slots : ∀ n ∈ (t.block.slots c).toList, n < 256

theorem Legible.printable (h : Legible c t) : ∀ q ∈ .plain t.name :: tilePieces c t, q.Printable := by
  have hs : IsBare (slotText c t) := by
    refine Level.isBare_join (by decide) (by simp [Quad.toList]) ?_
    rw [List.forall_mem_map]
    exact fun n hn => isBare_of_isNameChar (by simp) (isNameChar_slot (h.slots n hn))
  have hc : IsBare (colorText t) := by
    refine Level.isBare_join (by decide) (by simp [Quad.toList]) ?_
    rw [List.forall_mem_map]
    exact fun n hn => isBare_colorName (h.sound.colors n hn)
  have hf : IsBare (Text.join "|" (flagList t.flags)) := by
    refine Level.isBare_join (by decide) h.sound.flags.1 fun name hna => ⟨?_, fun d hd => ⟨?_, h.flags name hna d hd⟩⟩
    · simpa using (List.mem_filter.mp hna).2
    · exact isBlank_of_separatesFlags (h.sound.flags.2 name hna d hd)
  simp only [tilePieces, List.forall_mem_cons, List.not_mem_nil, false_implies, implies_true, and_true]
  exact ⟨h.sound.name.printable, Piece.bare_printable (isName_key _ (by simp)) hs,
    Piece.bare_printable (isName_key _ (by simp)) hc, Piece.bare_printable (isName_key _ (by simp)) hf⟩

theorem unlines_flatMap {α : Type} (f : α → List String) (xs : List α) :
    unlines (xs.flatMap f) = String.join (xs.map fun x => unlines (f x)) := by
  induction xs with
  | nil => rfl
  | cons x xs ih => rw [List.flatMap_cons, Text.unlines_append, ih, List.map_cons, String.join_cons]

def tileRaws (heading : String) (tiles : List KitTile) (f : KitTile → List String) : List String :=
  if tiles.isEmpty then [] else (";" ++ heading) :: tiles.flatMap f

theorem prints_tileRaws {he : String} {tiles : List KitTile} {f : KitTile → List String} (hh : Unbroken he)
    (hf : ∀ t ∈ tiles, Prints (f t) [tileText c t]) : Prints (tileRaws he tiles f) (tiles.map (tileText c)) := by
  have hl : Prints (tiles.flatMap f) (tiles.map (tileText c)) := by
    rw [List.map_eq_flatMap]
    exact .flatMap hf
  unfold tileRaws
  split
  · rename_i hnil
    rw [List.isEmpty_iff.mp hnil]
    exact .nil
  · exact (Prints.comment hh).cons hl

def roleRaws (t : KitTile) : List String :=
  if t.role.isEmpty then [] else [";" ++ (" " ++ t.role)]

theorem unlines_tileRaws (he : String) (tiles : List KitTile) (f : KitTile → List String) :
    unlines (tileRaws he tiles f) =
      if tiles.isEmpty then "" else ";" ++ he ++ "\n" ++ String.join (tiles.map fun t => unlines (f t)) := by
  unfold tileRaws
  split
  · rfl
  · rw [Text.unlines_cons, unlines_flatMap]

theorem unlines_tileText (c : Charset) (t : KitTile) : unlines [tileText c t] = tileLine c t := by
  rw [tileLine_eq, Text.unlines_cons]
  exact String.append_empty

theorem unlines_roleRaws (t : KitTile) : unlines (roleRaws t) = roleLine t := by
  unfold roleRaws roleLine
  split
  · rfl
  · rw [Text.unlines_cons, ← String.append_assoc]
    exact String.append_empty

theorem tilesText_eq (l : Listing) (c : Charset) : l.tilesText c = unlines
    ("TILES" :: (tileRaws " NON-OBJECT TILES" l.plain (fun t => roleRaws t ++ [tileText c t]) ++
      (l.groups.flatMap fun g => tileRaws (" OBJECT " ++ g.label) (partsOf g) fun t => [tileText c t]) ++
      tileRaws " 1x1 OBJECT TILE ALIASES" l.aliases (fun t => [tileText c t]) ++ ["", "END", "", "END"])) := by
  have hg : ∀ g : ObjectGroup, "; OBJECT " ++ g.label ++ "\n" = ";" ++ (" OBJECT " ++ g.label) ++ "\n" := by
    intro g
    rw [← String.append_assoc]
    rfl
  have hp : "; NON-OBJECT TILES\n" = ";" ++ " NON-OBJECT TILES" ++ "\n" := rfl
  have ha : "; 1x1 OBJECT TILE ALIASES\n" = ";" ++ " 1x1 OBJECT TILE ALIASES" ++ "\n" := rfl
  have hend : unlines ["", "END", "", "END"] = "\nEND\n\nEND\n" := rfl
  rw [Text.unlines_cons]
  simp only [Text.unlines_append, unlines_tileRaws, unlines_flatMap, unlines_roleRaws, unlines_tileText, hend]
  simp only [tilesText, hp, ha, hg, String.append_assoc]
  rfl

theorem prints_tilesText (hl : l.Sound) (hti : ∀ t ∈ l.tiles, Legible c t) :
    ∃ raws, l.tilesText c = unlines raws ∧ Prints raws ("TILES" :: (l.tiles.map (tileText c) ++ ["END", "END"])) := by
  refine ⟨_, tilesText_eq l c, ?_⟩
  have htl : ∀ t ∈ l.tiles, Prints [tileText c t] [tileText c t] := fun t ht =>
    .line (Piece.isLine_lineText (by simp) (hti t ht).printable)
  have hf : Prints (tileRaws " NON-OBJECT TILES" l.plain fun t => roleRaws t ++ [tileText c t])
      (l.plain.map (tileText c)) := by
    refine prints_tileRaws (by decide) fun t ht => ?_
    have hr : Prints (roleRaws t) [] := by
      unfold roleRaws
      split
      · exact .nil
      · exact .comment (Text.unbroken_append.mpr ⟨by decide, (hl.plain t ht).role⟩)
    exact hr.append (htl t (by simp [tiles, ht]))
  have hp : Prints (l.groups.flatMap fun g => tileRaws (" OBJECT " ++ g.label) (partsOf g) fun t => [tileText c t])
      (l.groups.flatMap fun g => (partsOf g).map (tileText c)) := by
    refine .flatMap fun g hg => prints_tileRaws (Text.unbroken_append.mpr ⟨by decide, unbroken_label (hl.groups g hg)⟩) ?_
    intro t ht
    refine htl t ?_
    rw [tiles, List.mem_append, List.mem_append]
    exact .inl (.inr (List.mem_flatMap.mpr ⟨g, hg, ht⟩))
  have hla : Prints (tileRaws " 1x1 OBJECT TILE ALIASES" l.aliases fun t => [tileText c t])
      (l.aliases.map (tileText c)) := by
    refine prints_tileRaws (by decide) fun t ht => htl t (by simp [tiles, ht])
  have hend : Prints ["", "END", "", "END"] ["END", "END"] :=
    Prints.blank.append ((Prints.line (by decide : IsLine "END")).append (Prints.blank.append (.line (by decide))))
  have hall := (Prints.line (by decide : IsLine "TILES")).cons (((hf.append hp).append hla).append hend)
  simpa only [tiles, List.map_append, List.map_flatMap, List.singleton_append] using hall

theorem Sound.tiles (hl : l.Sound) : ∀ t ∈ l.tiles, t.Sound := by
  intro t ht
  rw [Listing.tiles, List.mem_append, List.mem_append] at ht
  rcases ht with (ht | ht) | ht
  · exact hl.plain t ht
  · obtain ⟨g, hg, ht⟩ := List.mem_flatMap.mp ht
    exact (hl.groups g hg t (List.mem_filter.mp ht).1).1
  · exact hl.aliases t ht

end Listing

/-! ### The whole text -/

/-- What the first line of a tileset says about it. -/
def headerPieces (name charset : String) (s : SharedColors) : List Piece :=
  [.quoted "name" name, .bare "tileSize" "2x2", .bare "bgColor" (Listing.colorName s.background),
    .bare "mc1Color" (Listing.colorName s.multicolor1), .bare "mc2Color" (Listing.colorName s.multicolor2),
    .bare "charset" charset]

def headerLine (name charset : String) (s : SharedColors) : String :=
  lineText (.plain "TSET" :: headerPieces name charset s)

structure IsHeader (name charset : String) (s : SharedColors) : Prop where
  name : IsQuotable name ∧ '"' ∉ name.toList
  charset : IsBare charset
  colors : s.background < 16 ∧ s.multicolor1 < 16 ∧ s.multicolor2 < 16

theorem colorNameOf_eq_ok {color : Nat} {name : String} (h : colorNameOf color = .ok name) :
    name = Listing.colorName color ∧ color < 16 := by
  unfold colorNameOf at h
  split at h
  · rename_i text ht
    refine ⟨?_, ?_⟩
    · rw [Listing.colorName, ht, Option.getD_some, Except.ok.inj h]
    · obtain ⟨e, he, -⟩ := Option.map_eq_some_iff.mp ht
      exact (List.getElem?_eq_some_iff.mp he).1
  · cases h

theorem headerText_eq_ok {name charset text : String} (h : headerText name charset s = .ok text) :
    text = unlines [headerLine name charset s, ""] ∧
      s.background < 16 ∧ s.multicolor1 < 16 ∧ s.multicolor2 < 16 := by
  simp only [headerText, except_bind_eq_ok] at h
  obtain ⟨background, hba, multicolor1, hmulticolor1, multicolor2, hmulticolor2, h⟩ := h
  obtain ⟨rfl, hb⟩ := colorNameOf_eq_ok hba
  obtain ⟨rfl, h1⟩ := colorNameOf_eq_ok hmulticolor1
  obtain ⟨rfl, h2⟩ := colorNameOf_eq_ok hmulticolor2
  refine ⟨?_, hb, h1, h2⟩
  obtain rfl := Except.ok.inj h
  have hh : "TSET name=\"" = "TSET" ++ (" " ++ ("name" ++ "=\"")) := rfl
  have hs : "\" tileSize=2x2 bgColor=" =
      "\"" ++ (" " ++ ("tileSize" ++ ("=" ++ ("2x2" ++ (" " ++ ("bgColor" ++ "=")))))) := rfl
  have hmc1 : " mc1Color=" = " " ++ ("mc1Color" ++ "=") := rfl
  have hmc2 : " mc2Color=" = " " ++ ("mc2Color" ++ "=") := rfl
  have hf : " charset=" = " " ++ ("charset" ++ "=") := rfl
  simp only [hh, hs, hmc1, hmc2, hf, Text.unlines_cons, headerLine, lineText, headerPieces, List.map_cons, List.map_nil,
    Piece.text, Text.join, String.append_assoc]
  rfl

theorem IsHeader.printable {name charset : String} (h : IsHeader name charset s) :
    ∀ q ∈ .plain "TSET" :: headerPieces name charset s, q.Printable := by
  simp only [headerPieces, List.forall_mem_cons, List.not_mem_nil, false_implies, implies_true, and_true]
  exact ⟨Piece.plain_printable (by decide) (by decide), Piece.quoted_printable (isName_key _ (by simp)) h.name.1 h.name.2,
    Piece.bare_printable (isName_key _ (by simp)) (by decide),
    Piece.bare_printable (isName_key _ (by simp)) (Listing.isBare_colorName h.colors.1),
    Piece.bare_printable (isName_key _ (by simp)) (Listing.isBare_colorName h.colors.2.1),
    Piece.bare_printable (isName_key _ (by simp)) (Listing.isBare_colorName h.colors.2.2),
    Piece.bare_printable (isName_key _ (by simp)) h.charset⟩

def Listing.lines (l : Listing) (name charset : String) (s : SharedColors) (c : Charset) : List String :=
  headerLine name charset s :: ("CHARMAP" :: List.zipWith entryText (picks [] l.symbols) l.symbols ++ ["END"] ++
    l.objectLines ++ "TILES" :: (l.tiles.map (Listing.tileText c) ++ ["END", "END"]))

theorem prints_tilesetText {name charset text : String} {c : Charset} {tiles : List KitTile}
    {l : Listing} (hh : IsHeader name charset s) (hs : ∀ t ∈ tiles, t.Sound)
    (h : tilesetText name charset s c tiles = .ok (l, text)) (hti : ∀ t ∈ l.tiles, Listing.Legible c t) :
    ∃ raws, text = unlines raws ∧ Prints raws (l.lines name charset s c) := by
  simp only [tilesetText, except_bind_eq_ok] at h
  obtain ⟨header, hte, l', hl', charmap, hc, h⟩ := h
  obtain ⟨rfl, rfl⟩ := Prod.mk.inj (Except.ok.inj h)
  have hl := sound_listing hs hl'
  have hn : ∀ e ∈ Table.ofEntries (tiles.map fun t => (t.id, t.name)), Unbroken e.2 := by
    refine forall_mem_putAll (P := fun e => Unbroken e.2) (by simp) ?_
    rw [List.forall_mem_map]
    exact fun t ht => Text.unbroken_of_isBlank (hs t ht).name.isBlank
  obtain ⟨rfl, -⟩ := headerText_eq_ok hte
  obtain ⟨charmapRaws, rfl, he⟩ := Listing.prints_charmap hl hn hc
  obtain ⟨objectRaws, ho, hp⟩ := Listing.prints_objects hl
  obtain ⟨tileRaws, htr, htp⟩ := Listing.prints_tilesText hl hti
  have hi : Prints ["; Auto-generated from MD spec. Comments annotate charmap and tile intent.", ""] [] :=
    (Prints.comment (s := " Auto-generated from MD spec. Comments annotate charmap and tile intent.") (by decide)).append .blank
  have hhe : Prints [headerLine name charset s, ""] [headerLine name charset s] :=
    (Prints.line (Piece.isLine_lineText (by simp) hh.printable)).append .blank
  refine ⟨_, ?_, (((hi.append hhe).append he).append hp).append htp⟩
  rw [ho, htr]
  simp only [Text.unlines_append]
  rfl

end TileKit

end EscapeRoom
