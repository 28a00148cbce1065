import EscapeRoom.Proofs.Tileset.Agreement

/-!
# Results of reading a tileset

Collecting mode goes on where strict mode stops, so that strict mode stops at the first issue that is collected.
A tileset that is read without an issue is well-formed: its tiles stand under their ids with numbers in
range, names and ids belong to each other, objects are full rectangles of known tiles, and every map
character stands for one tile or for one object.
-/

namespace EscapeRoom

namespace Table

variable {κ ν : Type} [DecidableEq κ]

/-- Different keys have different values, and these are the given ones. -/
structure Bijection (t : Table κ ν) (onto : List ν) : Prop where
  keys : t.keys.Nodup
  values : t.values.Nodup
  onto : ∀ v, v ∈ t.values ↔ v ∈ onto

theorem has_iff_mem_keys {t : Table κ ν} {k : κ} : t.has k = true ↔ k ∈ t.keys := by
  rw [has, Option.isSome_iff_ne_none, ne_eq, get?_eq_none_iff, not_not]

theorem ofEntries_induction {P : Table κ ν → Prop} {entries : List (κ × ν)} (init : P [])
    (step : ∀ t, ∀ e ∈ entries, P t → P (t.put e.1 e.2)) : P (ofEntries entries) := by
  suffices hs : ∀ t, P t → P (entries.foldl (fun t e => put t e.1 e.2) t) from hs [] init
  induction entries with
  | nil =>
    intro t ht
    exact ht
  | cons e entries ih =>
    intro t ht
    rw [List.foldl_cons]
    apply ih
    · intro t e he
      exact step t e (List.mem_cons_of_mem _ he)
    · exact step t e List.mem_cons_self ht

theorem nodup_keys_ofEntries (entries : List (κ × ν)) : (ofEntries entries).keys.Nodup := by
  apply ofEntries_induction (P := fun t => t.keys.Nodup) (by simp [keys])
  intro t e _ ht
  exact nodup_keys_put ht _ _

theorem forall_mem_ofEntries {P : κ × ν → Prop} {entries : List (κ × ν)} (h : ∀ e ∈ entries, P e) :
    ∀ e ∈ ofEntries entries, P e := by
  apply ofEntries_induction (P := fun t => ∀ e ∈ t, P e) (by simp)
  intro t e he ht
  exact forall_mem_put ht (h e he)

end Table

namespace Tileset

open Report

variable {d : Dialect} {s : Surroundings} {p p' : Progress} {names : Table String Int} {entries : List CharmapEntry}
  {o : ObjectDef} {stamps : Table String Stamp}

/-- Collecting goes on where strict mode stops: a result in strict mode is the result of collecting without an
issue, an issue in strict mode is the first one that is collected, and a breakdown in strict mode is one that
collecting comes to before any issue. -/
theorem strict_run_iff_collecting_run (s : Surroundings) (text : String) :
    (∀ ts, ((read s text).run .strict).1 = .ok ts ↔ (read s text).run .collecting = (.ok ts, [])) ∧
    (∀ i, ((read s text).run .strict).1 = .error (.issue i) ↔
      ((read s text).run .collecting).2.head? = some i) ∧
    ∀ b, ((read s text).run .strict).1 = .error (.broken b) ↔
      (read s text).run .collecting = (.error (.broken b), []) := by
  refine ⟨fun ts => ?_, fun i => ?_, fun b => ?_⟩
  · exact strict_eq_ok
  · exact strict_eq_issue
  · exact strict_eq_broken

/-! What the lines of a file leave -/

/-- The names read so far are those of the tiles, in their order, and map characters are read once each. -/
structure Progress.Orderly (p : Progress) : Prop where
  headed : ∀ ts, p.tileset = some ts → ts.Headed
  named : ∀ ts, p.tileset = some ts → p.names = ts.tiles.map fun e => (nameKey e.2.name, e.1)
  names : p.names.keys.Nodup
  keys : (p.charmap.map (·.key)).Nodup
  single : ∀ e ∈ p.charmap, e.key.length = 1

theorem Progress.Step.orderly (hd : d.keepsNames = false) (hp : p.Orderly) (h : p.Step d p') :
    p'.Orderly := by
  cases h with
  | part part => exact ⟨hp.headed, hp.named, hp.names, hp.keys, hp.single⟩
  | header draft hh hnil =>
    rw [hd]
    refine ⟨?_, ?_, List.nodup_nil, hp.keys, hp.single⟩
    · intro ts he
      exact Option.some.inj he ▸ hh
    · intro ts he
      rw [← Option.some.inj he, hnil]
      rfl
  | @tile ts t nextId draft hts hs hn hf =>
    refine ⟨?_, ?_, Table.nodup_keys_put hp.names _ _, hp.keys, hp.single⟩
    · intro ts' he
      obtain ⟨hsi, hc⟩ := hp.headed ts hts
      exact Option.some.inj he ▸ ⟨hsi, hc⟩
    · intro ts' he
      rw [← Option.some.inj he, Table.put_of_not_mem (Table.get?_eq_none_iff.mp hn),
        Table.put_of_not_mem (Table.get?_eq_none_iff.mp hf), hp.named ts hts]
      simp
  | @charmap e hl hnew =>
    refine ⟨hp.headed, hp.named, hp.names, ?_, ?_⟩
    · rw [List.map_append, List.map_singleton, List.nodup_append]
      refine ⟨hp.keys, List.nodup_singleton _, ?_⟩
      intro key hkey key' hk'
      obtain ⟨e', he', rfl⟩ := List.mem_map.mp hkey
      rw [List.mem_singleton.mp hk']
      exact hnew e' he'
    · rw [List.forall_mem_append, List.forall_mem_singleton]
      exact ⟨hp.single, hl⟩
  | object e draft => exact ⟨hp.headed, hp.named, hp.names, hp.keys, hp.single⟩

theorem orderly_readLines (hd : d.keepsNames = false) {lines : List Line}
    (h : (readLines d s lines).Yields p) : p.Orderly := by
  apply readLines_induction h
  · exact ⟨by simp, by simp, List.nodup_nil, List.nodup_nil, by simp⟩
  · intro q q' hq hs
    exact hs.orderly hd hq

/-! What map characters are bound to -/

/-- Map characters are bound to tiles and objects as some entries say. -/
structure Bound (names : Table String Int) (entries : List CharmapEntry) (linked : LinkedTileset) :
    Prop where
  names_eq : linked.names = names
  charmap : ∀ e ∈ linked.charmap, ∃ x ∈ entries, x.key = e.1 ∧ names.get? x.target = some e.2
  nodup : linked.objects.keys.Nodup
  objects : ∀ e ∈ linked.objects, ObjectSound names e.2
  chars : ∀ e ∈ linked.objects, ∀ c, e.2.char = some c →
    ∃ x ∈ entries, x.key = c ∧ x.target = e.1 ∧ names.get? x.target = none

theorem Bound.link {e : CharmapEntry} {linked linked' : LinkedTileset}
    (h : Bound names entries linked) (hl : (e.link linked).Yields linked') : Bound names (entries ++ [e]) linked' := by
  have hla : e ∈ entries ++ [e] := List.mem_append_right _ (List.mem_singleton.mpr rfl)
  -- What was bound before stays bound by an earlier entry.
  have hch : ∀ c ∈ linked.charmap,
      ∃ x ∈ entries ++ [e], x.key = c.1 ∧ names.get? x.target = some c.2 := by
    intro c hc
    obtain ⟨x, hx, hb⟩ := h.charmap c hc
    exact ⟨x, List.mem_append_left _ hx, hb⟩
  have hcr : ∀ o ∈ linked.objects, ∀ c, o.2.char = some c →
      ∃ x ∈ entries ++ [e], x.key = c ∧ x.target = o.1 ∧ names.get? x.target = none := by
    intro o ho c hc
    obtain ⟨x, hx, hb⟩ := h.chars o ho c hc
    exact ⟨x, List.mem_append_left _ hx, hb⟩
  unfold CharmapEntry.link at hl
  rw [h.names_eq] at hl
  split at hl
  · rename_i id hid
    obtain rfl := yields_pure.mp hl
    exact ⟨rfl, Table.forall_mem_put hch ⟨e, hla, rfl, hid⟩, h.nodup, h.objects, hcr⟩
  · rename_i hn
    split at hl
    · simp at hl
    · rename_i o ho
      split at hl
      · simp at hl
      · obtain rfl := yields_pure.mp hl
        obtain ⟨hk, hf⟩ := h.objects _ (Table.mem_of_get? ho)
        refine ⟨rfl, hch, Table.nodup_keys_put h.nodup _ _,
          Table.forall_mem_put h.objects ⟨hk, hf⟩, Table.forall_mem_put hcr ?_⟩
        intro c hc
        exact ⟨e, hla, Option.some.inj hc, rfl, hn⟩

theorem bound_of_links {linked linked' : LinkedTileset} (h : Bound names [] linked)
    (hl : (entries.foldlM (fun ts e => CharmapEntry.link e ts) linked).Yields linked') :
    Bound names entries linked' := by
  refine Yields.foldlM_induction (P := fun done linked => Bound names done linked) hl h ?_
  intro done e _ linked linked' _ hdo hs
  exact hdo.link hs

theorem Bound.char_injective {linked : LinkedTileset}
    (h : Bound names entries linked) (hk : (entries.map (·.key)).Nodup) {o o' : ObjectDef} {c : String}
    (ho : o ∈ linked.objects.values) (ho' : o' ∈ linked.objects.values) (hc : o.char = some c)
    (hc' : o'.char = some c) : o = o' := by
  obtain ⟨e, he, rfl⟩ := List.mem_map.mp ho
  obtain ⟨e', he', rfl⟩ := List.mem_map.mp ho'
  obtain ⟨x, hx, hkey, ht, _⟩ := h.chars e he c hc
  obtain ⟨x', hx', hk', ht', _⟩ := h.chars e' he' c hc'
  obtain rfl := List.inj_on_of_nodup_map hk hx hx' (hkey.trans hk'.symm)
  have hget := Table.get?_of_mem h.nodup he
  rw [← ht, ht', Table.get?_of_mem h.nodup he'] at hget
  exact (Option.some.inj hget).symm

/-! Stamps -/

/-- A stamp shows an object that is bound to a map character: its rectangle, and the ids of its tiles in
order. -/
structure IsStamp (names : Table String Int) (o : ObjectDef) (stamp : Stamp) : Prop where
  char : o.char = some stamp.char
  name : stamp.name = o.name
  width : stamp.width = o.width
  height : stamp.height = o.height
  tiles : List.Forall₂ (fun t id => names.get? t = some id) o.tiles stamp.tiles

theorem stamp_yields {found : Option Stamp} (h : (ObjectDef.stamp o names).Yields found) :
    found = none ∧ o.char = none ∨ ∃ stamp, found = some stamp ∧ IsStamp names o stamp := by
  unfold ObjectDef.stamp at h
  split at h
  · rename_i hn
    exact .inl ⟨(yields_pure.mp h).symm, hn⟩
  · rename_i c hc
    simp only [yields_bind, yields_mapM, yields_pure] at h
    obtain ⟨ids, hids, rfl⟩ := h
    refine .inr ⟨_, rfl, hc, rfl, rfl, rfl, hids.imp ?_⟩
    intro t id hid
    split at hid
    · rename_i hget
      rw [hget, yields_pure.mp hid]
    · simp at hid

/-- Every bound object has a stamp under its map character, and there are no other stamps. -/
structure Stamped (names : Table String Int) (objects : List ObjectDef) (stamps : Table String Stamp) :
    Prop where
  stamp : ∀ o ∈ objects, ∀ c, o.char = some c → ∃ stamp, stamps.get? c = some stamp ∧ IsStamp names o stamp
  object : ∀ c stamp, stamps.get? c = some stamp → stamp.char = c ∧ ∃ o ∈ objects, IsStamp names o stamp

theorem Stamped.concat_unbound {objects : List ObjectDef}
    (h : Stamped names objects stamps) (ho : o.char = none) : Stamped names (objects ++ [o]) stamps := by
  constructor
  · intro o' ho' c hc
    rcases List.mem_append.mp ho' with ho' | ho'
    · exact h.stamp o' ho' c hc
    · rw [List.mem_singleton.mp ho', ho] at hc
      cases hc
  · intro c stamp hget
    obtain ⟨hch, o', ho', hs⟩ := h.object c stamp hget
    exact ⟨hch, o', List.mem_append_left _ ho', hs⟩

theorem Stamped.concat_bound {objects : List ObjectDef}
    {stamp : Stamp} (h : Stamped names objects stamps) (hs : IsStamp names o stamp)
    (ho : ∀ o' ∈ objects, o'.char = some stamp.char → o' = o) :
    Stamped names (objects ++ [o]) (stamps.put stamp.char stamp) := by
  constructor
  · intro o' ho' c hc
    rw [Table.get?_put]
    by_cases hsa : stamp.char = c
    · subst hsa
      rw [if_pos rfl]
      refine ⟨stamp, rfl, ?_⟩
      rcases List.mem_append.mp ho' with ho' | ho'
      · exact ho o' ho' hc ▸ hs
      · exact List.mem_singleton.mp ho' ▸ hs
    · rw [if_neg hsa]
      rcases List.mem_append.mp ho' with ho' | ho'
      · exact h.stamp o' ho' c hc
      · rw [List.mem_singleton.mp ho', hs.char] at hc
        exact absurd (Option.some.inj hc) hsa
  · intro c stamp' hget
    rw [Table.get?_put] at hget
    split at hget
    · rename_i hsa
      obtain rfl := Option.some.inj hget
      exact ⟨hsa, o, List.mem_append_right _ (List.mem_singleton.mpr rfl), hs⟩
    · obtain ⟨hch, o', ho', hs'⟩ := h.object c stamp' hget
      exact ⟨hch, o', List.mem_append_left _ ho', hs'⟩

theorem stamped_of_readStamps {linked : LinkedTileset} (h : (readStamps linked).Yields stamps)
    (hinj : ∀ o ∈ linked.objects.values, ∀ o' ∈ linked.objects.values, ∀ c, o.char = some c →
      o'.char = some c → o = o') : Stamped linked.names linked.objects.values stamps := by
  refine Yields.foldlM_induction (P := fun done stamps => Stamped linked.names done stamps) h
    ⟨by simp, by simp⟩ ?_
  intro done o rest stamps stamps' hall hdo hs
  have hmem : ∀ o' ∈ done ++ [o], o' ∈ linked.objects.values := by
    intro o' ho'
    rw [hall]
    simp only [List.mem_append, List.mem_cons] at ho' ⊢
    tauto
  rw [yields_bind] at hs
  obtain ⟨found, hf, hs⟩ := hs
  rcases stamp_yields hf with ⟨rfl, hn⟩ | ⟨stamp, rfl, hst⟩
  · obtain rfl := yields_pure.mp hs
    exact hdo.concat_unbound hn
  · obtain rfl := yields_pure.mp hs
    apply hdo.concat_bound hst
    intro o' ho' hc
    exact hinj o' (hmem o' (List.mem_append_left _ ho')) o
      (hmem o (List.mem_append_right _ (List.mem_singleton.mpr rfl))) _ hc hst.char

end Tileset

structure LinkedTileset.WellFormed (ts : LinkedTileset) : Prop where
  size : ts.tileWidth = 2 ∧ ts.tileHeight = 2
  colors : ∀ n ∈ [ts.background, ts.multicolor1, ts.multicolor2], 0 ≤ n ∧ n ≤ 15
  count : 1 ≤ ts.tiles.length ∧ ts.tiles.length ≤ 255 ∧ (ts.tiles.length : Int) ≤ ts.declaredCount
  ids : ts.tiles.keys.Nodup
  tiles : ∀ e ∈ ts.tiles, e.2.id = e.1 ∧ e.2.Sound ∧ e.2.chars.toList.length = 4 ∧
    e.2.colors.toList.length = 4 ∧ (e.2.colorMode.code = 0 ∨ e.2.colorMode.code = 1)
  names : ts.names.Bijection ts.tiles.keys
  objects : ∀ o ∈ ts.objects.values, (o.tiles.length : Int) = o.width * o.height ∧
    ∀ t ∈ o.tiles, t ∈ ts.names.keys
  charmap : ∀ e ∈ ts.charmap, e.1.length = 1 ∧ e.2 ∈ ts.tiles.keys
  disjoint : ∀ c ∈ ts.charmap.keys, c ∉ ts.stamps.keys
  stamps : Tileset.Stamped ts.names ts.objects.values ts.stamps

namespace Tileset

open Report

theorem Progress.Orderly.bijection {p : Progress} {ts : Tileset} (h : p.Orderly) (hts : p.tileset = some ts)
    (hids : ts.tiles.keys.Nodup) : p.names.Bijection ts.tiles.keys := by
  have hv : p.names.values = ts.tiles.keys := by
    rw [h.named ts hts, Table.values, List.map_map]
    rfl
  exact ⟨h.names, hv ▸ hids, fun id => by rw [hv]⟩

theorem Bound.disjoint {names : Table String Int} {entries : List CharmapEntry} {linked : LinkedTileset}
    {stamps : Table String Stamp} (h : Bound names entries linked)
    (hk : (entries.map (·.key)).Nodup) (hs : Stamped names linked.objects.values stamps) {c : String}
    (hc : c ∈ linked.charmap.keys) : c ∉ stamps.keys := by
  intro hst
  obtain ⟨e, he, rfl⟩ := List.mem_map.mp hc
  obtain ⟨stamp, hget⟩ := Option.isSome_iff_exists.mp (Table.has_iff_mem_keys.mpr hst)
  obtain ⟨hch, o, ho, hsh⟩ := hs.object _ _ hget
  obtain ⟨bound, hb, rfl⟩ := List.mem_map.mp ho
  obtain ⟨x, hx, hkey, hid⟩ := h.charmap e he
  obtain ⟨x', hx', hk', _, hn⟩ := h.chars bound hb e.1 (hch ▸ hsh.char)
  obtain rfl := List.inj_on_of_nodup_map hk hx hx' (hkey.trans hk'.symm)
  rw [hn] at hid
  cases hid

/-- A tileset that is read without an issue is well-formed. -/
theorem wellFormed_of_read {s : Surroundings} {text : String} {ts : LinkedTileset}
    (h : (read s text).Yields ts) : ts.WellFormed := by
  simp only [read, yields_bind, yields_pure] at h
  obtain ⟨p, hp, _, hcount, objects, hobjects, linked, hlinks, stamps, hstamps, rfl⟩ := h
  have horderly : p.Orderly := orderly_readLines rfl hp
  obtain ⟨ts, hts, hsome, hmany, hlimit, rfl⟩ := checkCount_checks hcount
  have hbuilt : ts.Built := readLines_built hp ts hts
  have hids : ts.tiles.keys.Nodup := nodup_ids_of_built hbuilt
  have hsame : linked.toTileset = { ts with declaredCount := tileLimit ts } := toTileset_of_links hlinks
  have htiles : linked.tiles = ts.tiles := by rw [hsame]
  have hunbound : ∀ e ∈ Table.ofEntries (objects.map fun o => (Text.upper o.name, o)),
      e.2.char = none ∧ ObjectSound p.names e.2 := by
    apply Table.forall_mem_ofEntries
    intro e he
    obtain ⟨o, ho, rfl⟩ := List.mem_map.mp he
    exact (readObjects_yields hobjects).2 o ho
  have hbound : Bound p.names p.charmap linked := by
    refine bound_of_links ⟨rfl, by simp, Table.nodup_keys_ofEntries _, ?_, ?_⟩ hlinks
    · intro e he
      exact (hunbound e he).2
    · intro e he c hc
      rw [(hunbound e he).1] at hc
      cases hc
  have hstamped : Stamped linked.names linked.objects.values stamps := by
    apply stamped_of_readStamps hstamps
    intro o ho o' ho' c hc hc'
    exact hbound.char_injective horderly.keys ho ho' hc hc'
  have hnames : linked.names.Bijection linked.tiles.keys := by
    rw [hbound.names_eq, htiles]
    exact horderly.bijection hts hids
  refine ⟨?_, ?_, ?_, ?_, ?_, hnames, ?_, ?_, ?_, hstamped⟩
  · show linked.toTileset.tileWidth = 2 ∧ linked.toTileset.tileHeight = 2
    rw [hsame]
    exact (horderly.headed ts hts).size
  · show ∀ n ∈ [linked.toTileset.background, linked.toTileset.multicolor1, linked.toTileset.multicolor2],
      0 ≤ n ∧ n ≤ 15
    rw [hsame]
    exact (horderly.headed ts hts).colors
  · show 1 ≤ linked.toTileset.tiles.length ∧ linked.toTileset.tiles.length ≤ 255 ∧
      (linked.toTileset.tiles.length : Int) ≤ linked.toTileset.declaredCount
    rw [hsame]
    exact ⟨hsome, hmany, hlimit⟩
  · exact htiles ▸ hids
  · intro e he
    obtain ⟨hid, hsound⟩ := tiles_of_built hbuilt e (htiles ▸ he)
    refine ⟨hid, hsound, rfl, rfl, ?_⟩
    cases e.2.colorMode with
    | single => exact .inl rfl
    | perQuadrant => exact .inr rfl
  · intro o ho
    obtain ⟨e, he, rfl⟩ := List.mem_map.mp ho
    obtain ⟨hknown, hfull⟩ := hbound.objects e he
    refine ⟨hfull, fun t ht => ?_⟩
    rw [hbound.names_eq]
    exact Table.has_iff_mem_keys.mp (hknown t ht)
  · intro e he
    obtain ⟨x, hx, hkey, hid⟩ := hbound.charmap e he
    refine ⟨hkey ▸ horderly.single x hx, (hnames.onto e.2).mp ?_⟩
    rw [hbound.names_eq]
    exact Table.mem_values (Table.mem_of_get? hid)
  · intro c hc
    exact hbound.disjoint horderly.keys (hbound.names_eq ▸ hstamped) hc

/-- The tileset of `commonText`: a tile, and an object that is bound to a map character. -/
def commonTileset : LinkedTileset :=
  { name := "common", declaredCount := 1, multicolor1 := 1, multicolor2 := 2
    tiles := [(0, ⟨0, "A", ⟨1, 2, 3, 4⟩, .single, ⟨5, 0, 0, 0⟩, 0⟩)]
    names := [("A", 0)]
    objects := [("X", ⟨"X", 1, 1, ["A"], some "x"⟩)]
    stamps := [("x", ⟨"X", 1, 1, [0], "x"⟩)] }

set_option maxRecDepth 10000 in
theorem wellFormed_of_read_common : (read commonPlace commonText).Yields commonTileset ∧
    commonTileset.WellFormed := by
  have hread : (read commonPlace commonText).Yields commonTileset := by decide +kernel
  exact ⟨hread, wellFormed_of_read hread⟩

end Tileset

end EscapeRoom
