import EscapeRoom.Proofs.TileKit.Reading

/-!
# Linking a kit's tileset

When all lines of a kit's tileset are read, its tiles are counted, its objects are looked at and its map characters are
bound. This goes without an issue exactly if the kit is legal.
-/

namespace EscapeRoom

theorem Number.writable_of_le {z : Int} (h : z.natAbs ≤ 256) : Writable z := by
  have hs : ∀ k, 3 ≤ k → (Nat.toDigits 10 z.natAbs).length ≤ k := by
    intro k hk
    rw [Nat.length_toDigits_le_iff (by decide) (by omega)]
    exact Nat.lt_of_lt_of_le (Nat.lt_of_le_of_lt h (by decide)) (Nat.pow_le_pow_right (by decide) hk)
  exact hs _ (by decide)

namespace Text

theorem lower_of_forall {s : String} (h : ∀ c ∈ s.toList, c.toNat < 128 ∧ ('A' ≤ c && c ≤ 'Z') = false) : lower s = s := by
  have hc : ∀ (cs before : List Char), (∀ c ∈ cs, c.toNat < 128 ∧ ('A' ≤ c && c ≤ 'Z') = false) →
      lowerFrom before cs = cs := by
    intro cs
    induction cs with
    | nil => exact fun _ _ => rfl
    | cons c cs ih =>
      intro before hcs
      rw [List.forall_mem_cons] at hcs
      obtain ⟨hlt, hca⟩ := hcs.1
      have hs : (c.toNat == 0x3A3) = false := by
        rw [beq_eq_false_iff_ne]
        omega
      rw [lowerFrom, hs, if_neg Bool.false_ne_true, lowerChar, if_pos hlt, hca, if_neg Bool.false_ne_true, ih _ hcs.2,
        List.singleton_append]
  rw [lower, hc _ _ h, String.ofList_toList]

theorem cutChars_append {sep : Char} {before : List Char} (h : sep ∉ before) (after : List Char) :
    cutChars sep (before ++ sep :: after) = some (before, after) := by
  induction before with
  | nil => simp [cutChars]
  | cons c before ih =>
    rw [List.mem_cons, not_or] at h
    rw [List.cons_append, cutChars, if_neg (Ne.symm h.1), ih h.2]
    rfl

end Text

namespace TileKit

open Tileset Report
open Listing (Legible Whole)

variable {place : Surroundings} {p : Progress} {ts : Tileset} {e : ObjectGroup × List String}

/-! ### Counting -/

theorem exact_checkCount (hts : p.tileset = some ts) (hde : ts.declaredCount = 0) :
    (checkCount place p).Exact (0 < ts.tiles.length ∧ ts.tiles.length ≤ 255) fun ts' =>
      ts' = { ts with declaredCount := ts.tiles.length } := by
  have hl : tileLimit ts = ts.tiles.length := if_pos hde
  refine .of_yields_iff (fun ts' => ?_) rfl
  simp only [checkCount, hts, pure_bind, reportAtStart, yields_bind, yields_reportIf, hl]
  simp only [Int.lt_irrefl, decide_false, Bool.false_and, Bool.false_eq_true, if_false, yields_bind, yields_reportIf,
    yields_pure, decide_eq_false_iff_not]
  constructor
  · rintro ⟨_, hs, _, _, _, hfew, rfl⟩
    exact ⟨⟨Nat.pos_of_ne_zero hs, Nat.not_lt.mp hfew⟩, rfl⟩
  · rintro ⟨⟨hs, hfew⟩, rfl⟩
    exact ⟨⟨⟩, hs.ne', ⟨⟩, trivial, ⟨⟩, Nat.not_lt.mpr hfew, rfl⟩

/-! ### Objects -/

def objectOf (e : ObjectGroup × List String) : ObjectDef where
  name := e.1.name
  width := e.1.size.1
  height := e.1.size.2
  tiles := e.2

theorem name_objectOf (e : ObjectGroup × List String) : (objectOf e).name = e.1.name := by
  simp only [objectOf]

theorem tileNames_join (he : Whole e) : tileNames (Text.join "," e.2) = e.2 := by
  have hn := he.names
  have hco : ∀ name ∈ e.2, ',' ∉ name.toList := fun name hna hc =>
    absurd ((hn name hna).isNameChar _ hc) (by decide)
  rw [tileNames, Text.parts_join rfl hco he.names_ne_nil, List.filter_eq_self.mpr, List.map_congr_left, List.map_id']
  · intro name hna
    rw [(hn name hna).trim, (hn name hna).upper]
  · intro name hna
    rw [(hn name hna).trim]
    simpa using (hn name hna).1

theorem lower_numberChar {c : Char} (h : c = '-' ∨ c.isDigit = true) : c.toNat < 128 ∧ ('A' ≤ c && c ≤ 'Z') = false := by
  rcases h with rfl | hc
  · decide
  · have hb := Number.toNat_bounds_of_isDigit hc
    refine ⟨by omega, ?_⟩
    have hall : ∀ n < 64, ('A' ≤ Char.ofNat n && Char.ofNat n ≤ 'Z') = false := by decide
    have hn := hall c.toNat (by omega)
    rwa [Char.ofNat_toNat] at hn

theorem cut_size (w h : Int) : Text.cut 'x' (Text.lower (toString w ++ "x" ++ toString h)) = some (toString w, toString h) := by
  have hx : ∀ z : Int, 'x' ∉ (toString z).toList := by
    intro z hc
    exact (Number.mem_toString hc).elim (absurd · (by decide)) (absurd · (by decide))
  have hl : Text.lower (toString w ++ "x" ++ toString h) = toString w ++ "x" ++ toString h := by
    refine Text.lower_of_forall fun c hc => ?_
    simp only [String.toList_append, List.mem_append] at hc
    rcases hc with (hc | hc) | hc
    · exact lower_numberChar (Number.mem_toString hc)
    · obtain rfl : c = 'x' := by simpa using hc
      decide
    · exact lower_numberChar (Number.mem_toString hc)
  rw [hl, Text.cut, String.append_assoc, String.toList_append, String.toList_append]
  rw [show "x".toList = ['x'] from rfl, List.singleton_append, Text.cutChars_append (hx w)]
  simp

theorem Listing.Whole.count (he : Whole e) : (e.2.length : Int) = e.1.size.1 * e.1.size.2 := by
  rw [he.length_names, Int.natCast_mul, Int.toNat_of_nonneg (Int.le_of_lt he.size.1),
    Int.toNat_of_nonneg (Int.le_of_lt he.size.2), Int.mul_comm]

/-- The size of an object is written in numbers that can be read. -/
def HasLegibleSize (e : ObjectGroup × List String) : Prop :=
  Number.Writable e.1.size.1 ∧ Number.Writable e.1.size.2

theorem exact_readObject {entry : ObjectEntry} {names : Table String Int} (he : Whole e)
    (hs : HasLegibleSize e) (ht : entry.text = Listing.objectText e.1 e.2) (hn : entry.name = e.1.name) :
    (entry.read names).Exact (∀ name ∈ e.2, name ∈ names.keys) fun found => found = some (objectOf e) := by
  have hsc := scan_behind_objectName he
  have hc : (objectFields e.1 e.2).has "char" = false := rfl
  have hst : (objectFields e.1 e.2).get? "size" = some (toString e.1.size.1 ++ "x" ++ toString e.1.size.2) := rfl
  have hti : (objectFields e.1 e.2).get? "tiles" = some (Text.join "," e.2) := rfl
  refine .of_yields_iff (b := some (objectOf e)) (fun found => ?_) rfl
  unfold ObjectEntry.read
  simp only [hn, ht, hsc, hc, hst, hti, cut_size, Number.parseLiteral_toString (by decide : Number.Base.decimal ≠ .hexadecimal),
    hs.1, hs.2, if_true, tileNames_join he, he.count, ne_eq, not_true_eq_false, if_false, Bool.false_eq_true,
    yields_bind, yields_forIn, yields_reportIf, yields_pure, Bool.not_eq_false', Table.has_iff_mem_keys]
  simp [objectOf]

theorem exact_readObjects {objects : List (ObjectGroup × List String)} {entries : List ObjectEntry}
    {names : Table String Int} (hw : ∀ e ∈ objects, Whole e) (hs : ∀ e ∈ objects, HasLegibleSize e)
    (hen : entries.map (fun e => (e.text, e.name)) = objects.map fun e => (Listing.objectText e.1 e.2, e.1.name)) :
    (readObjects names entries).Exact (∀ e ∈ objects, ∀ name ∈ e.2, name ∈ names.keys) fun found =>
      found = objects.map objectOf := by
  refine (exact_foldlM (fun _ e => ∀ name ∈ e.2, name ∈ names.keys) (fun done found => found = done.map objectOf)
    (forall₂_of_map_eq hen) rfl ?_).congr forall_split_iff fun _ _ h => h
  rintro done e rest entry found ho het rfl
  have he : e ∈ objects := by simp [ho]
  obtain ⟨ht, hn⟩ := Prod.mk.inj het
  have hr : (entry.read names).Exact _ _ := exact_readObject (hw e he) (hs e he) ht hn
  refine (hr.bind fun found _ hf => ?_).congr (iff_of_eq (and_true _)) fun _ _ h => h
  rw [hf]
  exact .of_yields_iff (fun found' => by rw [yields_pure, true_and]) (by simp)

/-! ### Map characters -/

variable {names : Table String Int} {keys : List String} {done : List (String × String)} {linked : LinkedTileset}

/-- Map characters are bound to objects as some entries say, each object to one at most. -/
structure LinkedBy (names : Table String Int) (keys : List String) (done : List (String × String)) (linked : LinkedTileset) :
    Prop where
  names_eq : linked.names = names
  keys_eq : linked.objects.keys = keys
  known : ∀ o ∈ linked.objects.values, ∀ t ∈ o.tiles, names.has t = true
  bound : ∀ key o c, linked.objects.get? key = some o → o.char = some c → c ∈ done.map (·.1)
  free : ∀ key o, linked.objects.get? key = some o → key ∉ names.keys → (o.char = none ↔ key ∉ done.map (·.2))

theorem exact_link {e : CharmapEntry} (h : LinkedBy names keys done linked) (hnew : e.key ∉ done.map (·.1)) :
    (e.link linked).Exact (e.target ∈ names.keys ∨ e.target ∈ keys ∧ e.target ∉ done.map (·.2))
      (LinkedBy names keys (done ++ [(e.key, e.target)])) := by
  obtain rfl := h.names_eq
  have hb : ∀ key o c, linked.objects.get? key = some o → o.char = some c →
      c ∈ (done ++ [(e.key, e.target)]).map (·.1) := by
    intro key o c ho hc
    rw [List.map_append, List.mem_append]
    exact .inl (h.bound key o c ho hc)
  have hf : ∀ key o, key ≠ e.target → linked.objects.get? key = some o → key ∉ linked.names.keys →
      (o.char = none ↔ key ∉ (done ++ [(e.key, e.target)]).map (·.2)) := by
    intro key o hne ho hkey
    rw [h.free key o ho hkey, List.map_append, List.mem_append, List.map_singleton, List.mem_singleton, or_iff_left hne]
  unfold CharmapEntry.link
  cases hid : linked.names.get? e.target with
  | some id =>
    have hmem : e.target ∈ linked.names.keys := by
      rw [← Table.has_iff_mem_keys, Table.has, hid]
      rfl
    refine .of_yields_iff (fun linked' => by rw [yields_pure, and_iff_right (.inl hmem)]) ?_
    refine ⟨rfl, h.keys_eq, h.known, hb, fun key o ho hkey => hf key o ?_ ho hkey⟩
    rintro rfl
    exact hkey hmem
  | none =>
    have hu : e.target ∉ linked.names.keys := Table.get?_eq_none_iff.mp hid
    cases ho : linked.objects.get? e.target with
    | none =>
      refine .of_not (by simp) ?_
      rintro (hn | ⟨hkey, -⟩)
      · exact hu hn
      · exact Table.get?_eq_none_iff.mp ho (h.keys_eq ▸ hkey)
    | some o =>
      have hmem : e.target ∈ linked.objects.keys := by
        rw [← Table.has_iff_mem_keys, Table.has, ho]
        rfl
      cases hch : o.char with
      | some c =>
        have hc : c ≠ e.key := fun hc => hnew (hc ▸ h.bound _ _ _ ho hch)
        refine .of_not (by simp [hch, hc]) ?_
        rintro (hn | ⟨-, hfi⟩)
        · exact hu hn
        · rw [← h.free _ _ ho hu, hch] at hfi
          cases hfi
      | none =>
        have hfi : e.target ∉ done.map (·.2) := (h.free _ _ ho hu).mp hch
        have hkey : e.target ∈ keys := h.keys_eq ▸ hmem
        refine .of_yields_iff (b := { linked with objects := linked.objects.put e.target { o with char := some e.key } })
          (fun linked' => by simp [hch, hfi, hkey]) ?_
        have hk := h.known o (Table.mem_values (Table.mem_of_get? ho))
        refine ⟨rfl, ?_, Table.forall_mem_values_put h.known hk, fun key o' c ho' hc => ?_, fun key o' ho' hkey => ?_⟩
        · rw [Table.keys_put, if_pos hmem, h.keys_eq]
        · rw [Table.get?_put] at ho'
          split at ho'
          · obtain rfl := Option.some.inj ho'
            obtain rfl := Option.some.inj hc
            simp
          · exact hb key o' c ho' hc
        · rw [Table.get?_put] at ho'
          split at ho'
          · rename_i ht
            obtain rfl := Option.some.inj ho'
            simp [ht]
          · rename_i ht
            exact hf key o' (Ne.symm ht) ho' hkey

/-- Targets that can be bound: each is a tile or an object, and each object is bound once only. -/
structure Bindable (names keys targets : List String) : Prop where
  known : ∀ target ∈ targets, target ∈ names ∨ target ∈ keys
  once : (targets.filter (! names.contains ·)).Nodup

theorem bindable_iff {names keys targets : List String} : Bindable names keys targets ↔
    ∀ before target rest, targets = before ++ target :: rest → target ∈ names ∨ target ∈ keys ∧ target ∉ before := by
  constructor
  · rintro ⟨hk, ho⟩ before target rest rfl
    rcases Decidable.em (target ∈ names) with hn | hn
    · exact .inl hn
    · refine .inr ⟨(hk target (by simp)).resolve_left hn, fun hmem => ?_⟩
      rw [List.filter_append, List.filter_cons_of_pos (by simpa using hn), List.nodup_append] at ho
      exact ho.2.2 target (by simpa [hmem] using hn) target List.mem_cons_self rfl
  · intro h
    refine ⟨fun target hta => ?_, ?_⟩
    · obtain ⟨before, rest, rfl⟩ := List.append_of_mem hta
      exact (h before target rest rfl).imp_right And.left
    · induction targets using List.reverseRecOn with
      | nil => simp
      | append_singleton targets target ih =>
        have hi := ih fun before t rest he => h before t (rest ++ [target]) (by simp [he])
        rw [List.filter_append, List.nodup_append]
        refine ⟨hi, (List.nodup_singleton target).filter _, fun t ht u hu => ?_⟩
        obtain ⟨hu, hn⟩ := List.mem_filter.mp hu
        obtain rfl := List.mem_singleton.mp hu
        rintro rfl
        rcases h targets t [] rfl with hmem | ⟨-, hnew⟩
        · simp [hmem] at hn
        · exact hnew (List.mem_filter.mp ht).1

theorem exact_links {entries : List CharmapEntry} {pairs : List (String × String)}
    (hen : entries.map (fun e => (e.key, e.target)) = pairs) (hk : (pairs.map (·.1)).Nodup)
    (h : LinkedBy names keys [] linked) :
    (entries.foldlM (fun ts e => CharmapEntry.link e ts) linked).Exact (Bindable names.keys keys (pairs.map (·.2)))
      (LinkedBy names keys pairs) := by
  have hp : entries.map (fun e => (e.key, e.target)) = pairs.map id := by rw [hen, List.map_id]
  refine (exact_foldlM (fun done e => e.2 ∈ names.keys ∨ e.2 ∈ keys ∧ e.2 ∉ done.map (·.2)) (LinkedBy names keys)
    (forall₂_of_map_eq hp) h ?_).congr ?_ fun _ _ h => h
  · rintro done e rest entry linked rfl rfl hl
    exact exact_link hl (forall_not_mem_before_iff_nodup.mpr hk done _ rest rfl)
  · rw [bindable_iff]
    constructor
    · intro h before target rest he
      obtain ⟨before, tail, rfl, rfl, ht⟩ := List.map_eq_append_iff.mp he
      obtain ⟨e, rest, rfl, rfl, -⟩ := List.map_eq_cons_iff.mp ht
      exact h before e rest rfl
    · rintro h done e rest rfl
      exact h (done.map (·.2)) e.2 (rest.map (·.2)) (by simp)

/-! ### The whole reading -/

theorem mem_keys_ofEntries {κ ν : Type} [DecidableEq κ] {entries : List (κ × ν)} {k : κ} :
    k ∈ (Table.ofEntries entries).keys ↔ k ∈ entries.map (·.1) := by
  rw [Table.ofEntries]
  suffices hs : ∀ t : Table κ ν, k ∈ (entries.foldl (fun t e => Table.put t e.1 e.2) t).keys ↔
      k ∈ t.keys ∨ k ∈ entries.map (·.1) by
    simpa [Table.keys] using hs []
  induction entries with
  | nil => simp
  | cons e entries ih =>
    intro t
    rw [List.foldl_cons, ih, Table.mem_keys_put, List.map_cons, List.mem_cons]
    tauto

variable {l : Listing} {c : Charset} {s : SharedColors} {name charset : String} {ts : Tileset} {entries : List (Char × String)}
  {objects : List (ObjectGroup × List String)} {tiles : List KitTile}

theorem length_numbered (c : Charset) (tiles : List KitTile) : (numbered c tiles).length = tiles.length := by
  simp [numbered]

/-- The kit has no more tiles and names than a tileset can have, and its names can be told apart. -/
@[mk_iff]
structure Listing.Legal (l : Listing) : Prop where
  count : l.tiles.length ≤ 255
  chars : l.symbols.length ≤ 71
  tileWords : ∀ t ∈ l.tiles, t.name ∉ ["TSET", "FLAGBITS"]
  objectWords : ∀ e ∈ l.wholeObjects, e.1.name ∉ reservedWords
  flags : ∀ t ∈ l.tiles, ∀ flag ∈ flagList t.flags, (flagBit? (Text.upper flag)).isSome = true
  names : (tileKeys l.tiles).Nodup
  parts : ∀ e ∈ l.wholeObjects, ∀ name ∈ e.2, name ∈ tileKeys l.tiles
  large : ∀ g ∈ l.largeGroups, nameKey g.name ∈ tileKeys l.tiles ∨ nameKey g.name ∈ l.wholeObjects.map (·.1.name)
  once : ((l.largeGroups.map fun g => nameKey g.name).filter (! (tileKeys l.tiles).contains ·)).Nodup

instance (l : Listing) : Decidable l.Legal :=
  decidable_of_iff _ (Listing.legal_iff l).symm

/-- All cells of a row and of a column of an object that has all its tiles but one are listed. -/
theorem size_le (hl : l.Sound) (he : e ∈ l.wholeObjects) :
    e.1.size.1 ≤ l.tiles.length + 1 ∧ e.1.size.2 ≤ l.tiles.length + 1 := by
  obtain ⟨hg, hn⟩ := Listing.mem_wholeObjects.mp he
  have hg : e.1 ∈ l.groups := (List.mem_filter.mp hg).1
  have hpos := (hl.whole he).size
  -- A part that is not in the corner belongs to an object of several cells.
  have hli : ∀ dx dy : Nat, dx < e.1.size.1.toNat → dy < e.1.size.2.toNat → (dx, dy) ≠ (0, 0) →
      ((dx : Int), (dy : Int)) ∈ l.tiles.map (·.offset) := by
    intro dx dy hdx hdy hc
    have hna : Listing.nameAt? e.1 dx dy ∈ e.2.map some := by
      rw [← Listing.cellNames_eq_some.mp hn]
      simp only [List.mem_flatMap, List.mem_map, List.mem_range]
      exact ⟨dy, hdy, dx, hdx, rfl⟩
    obtain ⟨name, -, hna⟩ := List.mem_map.mp hna
    obtain ⟨t, ht, ho, -⟩ := Listing.mem_of_nameAt? hna.symm
    obtain ⟨hs, -⟩ := hl.groups e.1 hg t ht
    have hin := hs.offset
    have hsi : isSingle t.objectSize = false := by
      rw [isSingle, decide_eq_false_iff_not]
      intro hsn
      rw [ho, hsn] at hin
      exact hc (Prod.ext (by dsimp only at hin ⊢; omega) (by dsimp only at hin ⊢; omega))
    refine List.mem_map.mpr ⟨t, ?_, ho⟩
    rw [Listing.tiles, List.mem_append, List.mem_append]
    exact .inl (.inr (List.mem_flatMap.mpr ⟨e.1, hg, List.mem_filter.mpr ⟨ht, by simp [hsi]⟩⟩))
  have hfew : ∀ (n : Nat) (f : Nat → Int × Int), Function.Injective f → (∀ i < n, f i ∈ l.tiles.map (·.offset)) →
      n ≤ l.tiles.length := by
    intro n f hf hmem
    have hno : ((List.range n).map f).Nodup := List.nodup_range.map hf
    have hsub : (List.range n).map f ⊆ l.tiles.map (·.offset) := by
      intro place hp
      obtain ⟨i, hi, rfl⟩ := List.mem_map.mp hp
      exact hmem i (List.mem_range.mp hi)
    simpa using (List.subperm_of_subset hno hsub).length_le
  have hw := hfew (e.1.size.1.toNat - 1) (fun i => ((i : Int) + 1, 0)) (fun i j h => by simp at h; omega) fun i hi => by
    simpa using hli (i + 1) 0 (by omega) (by omega) (by simp)
  have hh := hfew (e.1.size.2.toNat - 1) (fun i => (0, (i : Int) + 1)) (fun i j h => by simp at h; omega) fun i hi => by
    simpa using hli 0 (i + 1) (by omega) (by omega) (by simp)
  omega

theorem exact_count (hde : ts.declaredCount = 0) (hs : tiles ≠ [])
    (hp : outline p = outlineOf ts c entries objects tiles) :
    (checkCount place p).Exact (tiles.length ≤ 255) fun _ => True := by
  have hts : p.tileset = some { ts with tiles := numbered c tiles } := congrArg Outline.tileset hp
  refine (exact_checkCount hts hde).congr ?_ fun _ _ _ => trivial
  have hpos := List.length_pos_iff.mpr hs
  simp [length_numbered, hpos]

theorem hasLegibleSize_of_mem_wholeObjects (hl : l.Sound) (hc : l.tiles.length ≤ 255) :
    ∀ e ∈ l.wholeObjects, HasLegibleSize e := by
  intro e he
  have hs := size_le hl he
  have hpos := (hl.whole he).size
  exact ⟨Number.writable_of_le (by omega), Number.writable_of_le (by omega)⟩

theorem exact_objects (hw : ∀ e ∈ objects, Whole e) (hs : ∀ e ∈ objects, HasLegibleSize e)
    (hp : outline p = outlineOf ts c entries objects tiles) :
    (readObjects p.names p.objects).Exact (∀ e ∈ objects, ∀ name ∈ e.2, name ∈ tileKeys tiles) fun found =>
      found = objects.map objectOf := by
  have hn : p.names = keyed tiles := congrArg Outline.names hp
  rw [← keys_keyed, hn]
  exact exact_readObjects hw hs (congrArg Outline.objects hp)

theorem mem_objectTable {objects : List (ObjectGroup × List String)} {table : Table String ObjectDef}
    (ht : table = Table.ofEntries ((objects.map objectOf).map fun o => (Text.upper o.name, o))) :
    (∀ key, key ∈ table.keys ↔ key ∈ objects.map (·.1.name)) ∧ ∀ o ∈ table.values, o.char = none ∧ ∃ e ∈ objects, o.tiles = e.2 := by
  subst ht
  refine ⟨fun key => ?_, ?_⟩
  · rw [mem_keys_ofEntries, List.map_map, List.map_map]
    have hu : ∀ e : ObjectGroup × List String, Text.upper (objectOf e).name = e.1.name := by
      intro e
      rw [name_objectOf]
      exact (Listing.isTileName_groupName e.1).upper
    simp only [Function.comp_def, hu]
  · rw [Table.values, List.forall_mem_map]
    refine Table.forall_mem_ofEntries ?_
    rw [List.map_map, List.forall_mem_map]
    exact fun e he => ⟨rfl, e, he, rfl⟩

theorem exact_bindings {checked : Tileset} {table : Table String ObjectDef} {targets : List String}
    (hk : ∀ key, key ∈ table.keys ↔ key ∈ targets) (hch : (entries.map (·.1)).Nodup)
    (hv : ∀ o ∈ table.values, o.char = none ∧ ∀ t ∈ o.tiles, t ∈ tileKeys tiles)
    (hp : outline p = outlineOf ts c entries objects tiles) : (do
      let linked ← p.charmap.foldlM (fun ts e => CharmapEntry.link e ts)
        ({ checked with names := p.names, objects := table } : LinkedTileset)
      let stamps ← readStamps linked
      return { linked with stamps } : Reading LinkedTileset).Exact
      (Bindable (tileKeys tiles) targets (entries.map fun e => nameKey e.2)) fun _ => True := by
  have hn : p.names = keyed tiles := congrArg Outline.names hp
  have hcr : p.charmap.map (fun e => (e.key, e.target)) = charmapOf entries := congrArg Outline.charmap hp
  have hno : ((charmapOf entries).map (·.1)).Nodup := by
    have hs : (charmapOf entries).map (·.1) = (entries.map (·.1)).map String.singleton := by
      rw [charmapOf, List.map_map, List.map_map]
      simp only [Function.comp_def]
    rw [hs]
    exact hch.map fun c d h => by simpa using h
  have hta : (charmapOf entries).map (·.2) = entries.map fun e => nameKey e.2 := by
    rw [charmapOf, List.map_map]
    simp only [Function.comp_def]
  have hi : LinkedBy (keyed tiles) table.keys [] { checked with names := p.names, objects := table } := by
    have hf : ∀ key o, table.get? key = some o → o.char = none := fun key o ho =>
      (hv o (Table.mem_values (Table.mem_of_get? ho))).1
    refine ⟨hn, rfl, fun o ho t ht => ?_, fun key o c ho hc => ?_, fun key o ho _ => ?_⟩
    · rw [Table.has_iff_mem_keys, keys_keyed]
      exact (hv o ho).2 t ht
    · rw [hf key o ho] at hc
      cases hc
    · simpa using hf key o ho
  have hst : ∀ linked, LinkedBy (keyed tiles) table.keys (charmapOf entries) linked → (do
      let stamps ← readStamps linked
      return { linked with stamps } : Reading LinkedTileset).Exact True fun _ => True := by
    intro linked hl
    obtain ⟨stamps, hst⟩ := exists_readStamps_of_known (hl.names_eq ▸ hl.known)
    exact ⟨fun _ _ => ⟨trivial, trivial⟩, fun _ => ⟨_, yields_bind.mpr ⟨stamps, hst, yields_pure.mpr rfl⟩⟩⟩
  refine ((exact_links hcr hno hi).bind fun linked _ hl => hst linked hl).congr ?_ fun _ _ _ => trivial
  rw [hta, keys_keyed, and_true]
  simp only [bindable_iff, hk]

theorem exact_rest (place : Surroundings) (hde : ts.declaredCount = 0) (hs : tiles ≠ []) (hw : ∀ e ∈ objects, Whole e)
    (hsi : tiles.length ≤ 255 → ∀ e ∈ objects, HasLegibleSize e) (hc : (entries.map (·.1)).Nodup)
    (hp : outline p = outlineOf ts c entries objects tiles) : (do
      let ts ← checkCount place p
      let objects ← readObjects p.names p.objects
      let linked : LinkedTileset :=
        { ts with
          names := p.names
          objects := Table.ofEntries (objects.map fun o => (Text.upper o.name, o)) }
      let linked ← p.charmap.foldlM (fun ts e => e.link ts) linked
      let stamps ← readStamps linked
      return { linked with stamps } : Reading LinkedTileset).Exact
      (tiles.length ≤ 255 ∧ (∀ e ∈ objects, ∀ name ∈ e.2, name ∈ tileKeys tiles) ∧
        Bindable (tileKeys tiles) (objects.map (·.1.name)) (entries.map fun e => nameKey e.2)) fun _ => True := by
  refine (exact_count hde hs hp).bind fun checked hco _ =>
    (exact_objects hw (hsi hco) hp).bind fun found hk hf => ?_
  rw [hf]
  obtain ⟨hke, hv⟩ := @mem_objectTable objects _ rfl
  refine exact_bindings hke hc (fun o ho => ⟨(hv o ho).1, ?_⟩) hp
  obtain ⟨e, he, ht⟩ := (hv o ho).2
  exact ht ▸ hk e he

theorem Listing.map_nameKey_entries (l : Listing) : (l.entries.map fun e => nameKey e.2) = l.symbols.map nameKey := by
  conv_rhs => rw [← l.snd_entries, List.map_map]
  simp only [Function.comp_def]

theorem bindable_symbols_iff {targets : List String} :
    Bindable (tileKeys l.tiles) targets (l.symbols.map nameKey) ↔
      (∀ g ∈ l.largeGroups, nameKey g.name ∈ tileKeys l.tiles ∨ nameKey g.name ∈ targets) ∧
        ((l.largeGroups.map fun g => nameKey g.name).filter (! (tileKeys l.tiles).contains ·)).Nodup := by
  have hti : ∀ key ∈ (l.plain ++ l.aliases).map (fun t => nameKey t.name), key ∈ tileKeys l.tiles := by
    have hsub : l.plain ++ l.aliases ⊆ l.tiles := by
      intro t ht
      simp only [Listing.tiles, List.mem_append] at ht ⊢
      tauto
    exact fun key hkey => List.map_subset _ hsub hkey
  have hs : l.symbols.map nameKey =
      (l.plain ++ l.aliases).map (fun t => nameKey t.name) ++ l.largeGroups.map fun g => nameKey g.name := by
    simp only [Listing.symbols, List.map_append, List.map_map, Function.comp_def]
  have hn : ((l.plain ++ l.aliases).map fun t => nameKey t.name).filter (! (tileKeys l.tiles).contains ·) = [] := by
    rw [List.filter_eq_nil_iff]
    intro key hkey
    simpa using hti key hkey
  rw [hs]
  constructor
  · rintro ⟨hk, ho⟩
    rw [List.filter_append, hn, List.nil_append] at ho
    refine ⟨fun g hg => hk (nameKey g.name) (List.mem_append_right _ ?_), ho⟩
    exact List.mem_map.mpr ⟨g, hg, rfl⟩
  · rintro ⟨hk, ho⟩
    refine ⟨fun key hkey => ?_, ?_⟩
    · rcases List.mem_append.mp hkey with hkey | hkey
      · exact .inl (hti key hkey)
      · obtain ⟨g, hg, rfl⟩ := List.mem_map.mp hkey
        exact hk g hg
    · rw [List.filter_append, hn, List.nil_append]
      exact ho

/-- A kit's tileset is read without an issue exactly if the charset is in its place and the kit is legal. -/
theorem exact_read {text : String} (hh : IsHeader name charset s) (hl : l.Sound)
    (ht : ∀ t ∈ l.tiles, Legible c t) (hw : l.Apart) (hs : l.tiles ≠ []) (hte : (sourceLines text).map Line.text = l.lines name charset s c) :
    (Tileset.read place text).Exact (place.isFile (place.charsetPath charset) = true ∧ l.Legal) fun _ => True := by
  have hli := (reads_lines hh hl ht hw : Reads place _ _ _ _) (sourceLines text) {} hte rfl
  refine (hli.bind fun p hc hp => exact_rest place rfl hs (fun e he => hl.whole he)
    (hasLegibleSize_of_mem_wholeObjects hl) (l.fst_entries ▸ hc.2.chars) hp).congr ?_ fun _ _ _ => trivial
  rw [l.map_nameKey_entries, bindable_symbols_iff]
  constructor
  · rintro ⟨⟨hf, hr⟩, hco, hpa, hla, ho⟩
    exact ⟨hf, hco, nodup_picks_iff.mp hr.chars, hr.tiles.words, hr.objects, hr.tiles.flags, hr.tiles.keys, hpa, hla,
      ho⟩
  · rintro ⟨hf, hle⟩
    exact ⟨⟨hf, nodup_picks_iff.mpr hle.chars, hle.objectWords, Nat.le_succ_of_le hle.count, hle.tileWords, hle.flags,
      hle.names⟩, hle.count, hle.parts, hle.large, hle.once⟩

end TileKit

end EscapeRoom
