import EscapeRoom.Proofs.Tileset.Dialects

/-!
# The two readings agree

After the lines of a tileset file are read, map characters are bound to objects. One reading finds objects in
a table by their names, the other one in a list from its end; where names are different, both find the same
object. The tiles of objects have been looked up before, so that stamps can always be made.
-/

namespace EscapeRoom

namespace Table

variable {κ ν : Type} [DecidableEq κ]

theorem put_append_cons {t u : Table κ ν} {k : κ} (h : k ∉ t.keys) (v w : ν) :
    put (t ++ (k, v) :: u) k w = t ++ (k, w) :: u := by
  induction t with
  | nil => simp [put]
  | cons e t ih =>
    rw [keys_cons, List.mem_cons, not_or] at h
    rw [List.cons_append, put, if_neg (Ne.symm h.1), ih h.2, List.cons_append]

theorem put_of_not_mem {t : Table κ ν} {k : κ} (h : k ∉ t.keys) (v : ν) : t.put k v = t ++ [(k, v)] := by
  induction t with
  | nil => rfl
  | cons e t ih =>
    rw [keys_cons, List.mem_cons, not_or] at h
    rw [put, if_neg (Ne.symm h.1), ih h.2, List.cons_append]

theorem ofEntries_of_nodup {entries : Table κ ν} (h : entries.keys.Nodup) : ofEntries entries = entries := by
  suffices hs : ∀ t : Table κ ν, (t ++ entries).keys.Nodup →
      entries.foldl (fun t e => put t e.1 e.2) t = t ++ entries from hs [] h
  clear h
  induction entries with
  | nil => simp
  | cons e entries ih =>
    intro t hn
    have hnew : e.1 ∉ t.keys := by
      rw [keys, List.map_append, List.map_cons, List.nodup_append] at hn
      exact fun hmem => hn.2.2 e.1 hmem e.1 List.mem_cons_self rfl
    rw [List.foldl_cons, put_of_not_mem hnew, ih (t ++ [(e.1, e.2)]) (by simpa using hn)]
    simp

end Table

namespace Tileset

open Report

variable {o : ObjectDef} {target : String}

def byName (objects : List ObjectDef) : Table String ObjectDef :=
  objects.map fun o => (Text.upper o.name, o)

theorem keys_byName (objects : List ObjectDef) :
    (byName objects).keys = objects.map fun o => Text.upper o.name := by
  rw [byName, Table.keys, List.map_map]
  rfl

theorem values_byName (objects : List ObjectDef) : (byName objects).values = objects := by
  rw [byName, Table.values, List.map_map]
  exact List.map_id objects

theorem exists_split {objects : List ObjectDef} (hn : (byName objects).keys.Nodup)
    (h : (byName objects).get? target = some o) :
    ∃ before after, objects = before ++ o :: after ∧ Text.upper o.name = target ∧
      target ∉ (byName before).keys ∧ ∀ x ∈ after, (Text.upper x.name == target) = false := by
  rw [Table.get?, byName, List.find?_map, Option.map_map] at h
  obtain ⟨o', hf, rfl⟩ := Option.map_eq_some_iff.mp h
  obtain ⟨hna, before, after, rfl, hb⟩ := List.find?_eq_some_iff_append.mp hf
  have hna : Text.upper o'.name = target := of_decide_eq_true hna
  subst hna
  rw [keys_byName, List.map_append, List.map_cons, List.nodup_append, List.nodup_cons] at hn
  refine ⟨before, after, rfl, rfl, fun hmem => ?_, fun x hx => ?_⟩
  · rw [keys_byName] at hmem
    exact hn.2.2 _ hmem _ List.mem_cons_self rfl
  · rw [beq_eq_false_iff_ne]
    exact fun he => hn.2.1.1 (he ▸ List.mem_map_of_mem hx)

theorem find?_reverse_split {α : Type} {p : α → Bool} {before after : List α} {a : α} (ha : p a = true)
    (haf : ∀ x ∈ after, p x = false) : (before ++ a :: after).reverse.find? p = some a := by
  have hn : after.reverse.find? p = none :=
    List.find?_eq_none.mpr fun x hx => by simp [haf x (List.mem_reverse.mp hx)]
  rw [List.reverse_append, List.reverse_cons, List.find?_append, List.find?_append, hn]
  simp [ha]

theorem changeLast_split {α : Type} {p : α → Bool} {before after : List α} {a : α} (f : α → α)
    (ha : p a = true) (haf : ∀ x ∈ after, p x = false) :
    changeLast p f (before ++ a :: after) = before ++ f a :: after := by
  have hn : after.reverse.findIdx? p = none :=
    List.findIdx?_eq_none_iff.mpr fun x hx => haf x (List.mem_reverse.mp hx)
  have hi : (before ++ a :: after).reverse.findIdx? p = some after.length := by
    rw [List.reverse_append, List.reverse_cons, List.findIdx?_append, List.findIdx?_append, hn]
    simp [ha, List.findIdx?_cons]
  have hp : (before ++ a :: after).length - 1 - after.length = before.length := by
    rw [List.length_append, List.length_cons]
    omega
  rw [changeLast, hi]
  dsimp only
  rw [hp, List.modify_eq_take_cons_drop (by simp)]
  simp

/-- A tileset that is being linked keeps some objects by their names, which are different. -/
structure Linking (names : Table String Int) (linked : LinkedTileset) (objects : List ObjectDef) : Prop where
  names_eq : linked.names = names
  objects_eq : linked.objects = byName objects
  nodup : (byName objects).keys.Nodup
  tiles : ∀ o ∈ objects, ∀ t ∈ o.tiles, names.has t = true

variable {names : Table String Int} {linked linked' : LinkedTileset} {objects : List ObjectDef}

theorem Linking.values (h : Linking names linked objects) : linked.objects.values = objects := by
  rw [h.objects_eq, values_byName]

theorem Linking.find?_eq_none (h : Linking names linked objects) (ho : linked.objects.get? target = none) :
    objects.reverse.find? (fun o => Text.upper o.name == target) = none := by
  rw [h.objects_eq, Table.get?_eq_none_iff, keys_byName] at ho
  refine List.find?_eq_none.mpr fun o hmem hn => ho ?_
  exact List.mem_map.mpr ⟨o, List.mem_reverse.mp hmem, beq_iff_eq.mp hn⟩

theorem Linking.bind (h : Linking names linked objects) (key : String) (ho : linked.objects.get? target = some o) :
    Linking names
      { linked with objects := linked.objects.put target { o with char := some key } }
      (changeLast (fun o => Text.upper o.name == target) (fun o => { o with char := some key }) objects) ∧
    objects.reverse.find? (fun o => Text.upper o.name == target) = some o := by
  obtain ⟨hn, hob, hno, ht⟩ := h
  rw [hob] at ho
  obtain ⟨before, after, rfl, rfl, hb, ha⟩ := exists_split hno ho
  have hta : (Text.upper o.name == Text.upper o.name) = true := beq_self_eq_true _
  refine ⟨?_, find?_reverse_split (a := o) hta ha⟩
  rw [changeLast_split (a := o) _ hta ha]
  refine ⟨hn, ?_, ?_, ?_⟩
  · simp only [hob, byName, List.map_append, List.map_cons]
    exact Table.put_append_cons hb _ _
  · simpa [keys_byName] using hno
  · rw [List.forall_mem_append, List.forall_mem_cons] at ht ⊢
    exact ht

theorem CharmapEntry.link_endsAs (h : Linking names linked objects) (e : CharmapEntry) :
    EndsAs (fun l => l.objects.values) (e.link linked) (e.bindListed names objects) ∧
      ∀ linked', (e.link linked).Yields linked' → ∃ objects', Linking names linked' objects' := by
  obtain rfl := h.names_eq
  unfold CharmapEntry.link CharmapEntry.bindListed
  cases hid : linked.names.get? e.target with
  | some id =>
    rw [if_pos (by rw [Table.has, hid]; rfl)]
    refine ⟨congrArg _ h.values, fun linked' hy => ?_⟩
    obtain rfl := yields_pure.mp hy
    exact ⟨objects, rfl, h.objects_eq, h.nodup, h.tiles⟩
  | none =>
    rw [if_neg (by rw [Table.has, hid]; exact Bool.false_ne_true)]
    cases ho : linked.objects.get? e.target with
    | none =>
      simp only [h.find?_eq_none ho]
      exact ⟨endsAs_report _ _ _, fun linked' hy => by simp at hy⟩
    | some o =>
      obtain ⟨hb, hf⟩ := h.bind e.key ho
      simp only [hf]
      split
      · exact ⟨endsAs_report _ _ _, fun linked' hy => by simp at hy⟩
      · refine ⟨congrArg _ hb.values, fun linked' hy => ?_⟩
        obtain rfl := yields_pure.mp hy
        exact ⟨_, hb⟩

theorem links_endsAs (h : Linking names linked objects) (entries : List CharmapEntry) :
    EndsAs (fun l => l.objects.values) (entries.foldlM (fun ts e => CharmapEntry.link e ts) linked)
      (entries.foldlM (fun objects e => CharmapEntry.bindListed e names objects) objects) := by
  have hs : ∀ (e : CharmapEntry) (_ : List CharmapEntry) (linked : LinkedTileset),
      (∃ objects, Linking names linked objects) →
      EndsAs (fun l => l.objects.values) (e.link linked) (e.bindListed names linked.objects.values) ∧
        ∀ linked', (e.link linked).Yields linked' → ∃ objects', Linking names linked' objects' := by
    rintro e _ linked ⟨objects, hl⟩
    rw [hl.values]
    exact CharmapEntry.link_endsAs hl e
  rw [← h.values]
  exact EndsAs.foldlM (fun _ linked => ∃ objects, Linking names linked objects) hs ⟨objects, h⟩

/-- Linking goes on with the same names, and with objects whose tiles are known. -/
theorem linking_of_links (h : Linking names linked objects) {entries : List CharmapEntry}
    (hl : (entries.foldlM (fun ts e => CharmapEntry.link e ts) linked).Yields linked') :
    ∃ objects', Linking names linked' objects' := by
  refine Yields.foldlM_induction (P := fun _ linked => ∃ objects, Linking names linked objects) hl
    ⟨objects, h⟩ ?_
  rintro _ e _ linked linked' _ ⟨objects, hli⟩ hs
  exact (CharmapEntry.link_endsAs hli e).2 linked' hs

/-! Stamps -/

theorem exists_stamp (h : ∀ t ∈ o.tiles, names.has t = true) : ∃ found, (ObjectDef.stamp o names).Yields found := by
  unfold ObjectDef.stamp
  split
  · exact ⟨none, yields_pure.mpr rfl⟩
  · simp only [yields_bind, yields_pure]
    refine (exists_yields_mapM fun t ht => ?_).elim fun ids hids => ⟨_, ids, hids, rfl⟩
    obtain ⟨id, hid⟩ := Option.isSome_iff_exists.mp (h t ht)
    exact ⟨id, by rw [hid]; exact yields_pure.mpr rfl⟩

theorem exists_readStamps_of_known (h : ∀ o ∈ linked.objects.values, ∀ t ∈ o.tiles, linked.names.has t = true) :
    ∃ stamps, (readStamps linked).Yields stamps := by
  unfold readStamps
  refine exists_yields_foldlM fun o ho stamps => ?_
  obtain ⟨found, hf⟩ := exists_stamp (h o ho)
  simp only [yields_bind]
  cases found with
  | none => exact ⟨stamps, none, hf, yields_pure.mpr rfl⟩
  | some stamp => exact ⟨_, some stamp, hf, yields_pure.mpr rfl⟩

theorem exists_readStamps (h : Linking names linked objects) :
    ∃ stamps, (readStamps linked).Yields stamps := by
  apply exists_readStamps_of_known
  rw [h.values, h.names_eq]
  exact h.tiles

def listed (ts : LinkedTileset) : ListedTileset :=
  { ts.toTileset with objects := ts.objects.values }

/-- In strict mode the two readings of a file that they have in common come to the same end: the same issue,
the same breakdown, or tilesets with the same tiles and objects. -/
theorem strict_read_eq_readListed {s : Surroundings} {text : String} (h : Common (sourceLines text)) :
    (read s text).strict.map listed = (readListed s text).strict := by
  show EndsAs listed (read s text) (readListed s text)
  unfold read readListed
  refine (readLines_endsAs h).bind fun p hp => ?_
  refine (EndsAs.refl _).bind fun ts hts => ?_
  refine (EndsAs.refl _).bind fun objects hobjects => ?_
  obtain ⟨hnames, hsound⟩ := readObjects_yields hobjects
  have hnodup : (byName objects).keys.Nodup := by
    have hnodup := h.objects
    rw [← readLines_objects hp, ← hnames, List.map_map] at hnodup
    rw [keys_byName]
    exact hnodup
  have hlinking : Linking p.names
      { ts with
        names := p.names
        objects := Table.ofEntries (objects.map fun o => (Text.upper o.name, o)) } objects :=
    ⟨rfl, Table.ofEntries_of_nodup hnodup, hnodup, fun o ho => (hsound o ho).2.known⟩
  refine (links_endsAs hlinking p.charmap).bind fun linked hlinked => ?_
  have hsame : linked.toTileset = ts := toTileset_of_links hlinked
  obtain ⟨objects', hlast⟩ := linking_of_links hlinking hlinked
  obtain ⟨stamps, hstamps⟩ := exists_readStamps hlast
  rw [EndsAs, strict_bind, strict_eq_ok.mpr hstamps, ← hsame]
  rfl

/-- A file with a tile, and with an object that is bound to a map character. -/
def commonText : String :=
  "TSET tileSize=2x2 bgColor=0 mc1Color=1 mc2Color=2
TILES
A chars=1,2,3,4 color=5
END
OBJECTS
X size=1x1 tiles=A
END
CHARMAP
x X
END
"

def commonLines : List Line :=
  [(1, "TSET tileSize=2x2 bgColor=0 mc1Color=1 mc2Color=2"), (2, "TILES"), (3, "A chars=1,2,3,4 color=5"),
    (4, "END"), (5, "OBJECTS"), (6, "X size=1x1 tiles=A"), (7, "END"), (8, "CHARMAP"), (9, "x X"),
    (10, "END")].map fun line => ⟨line.1, line.2, line.2⟩

def commonPlace : Surroundings where
  path := "common.tset"
  isFile := fun _ => false

set_option maxRecDepth 10000 in
theorem sourceLines_common : sourceLines commonText = commonLines := by
  decide +kernel

set_option maxRecDepth 10000 in
theorem common_commonLines : Common commonLines :=
  ⟨by decide +kernel, by decide +kernel, by decide +kernel⟩

theorem strict_read_eq_readListed_common :
    (read commonPlace commonText).strict.map listed = (readListed commonPlace commonText).strict :=
  strict_read_eq_readListed (sourceLines_common ▸ common_commonLines)

end Tileset

end EscapeRoom
