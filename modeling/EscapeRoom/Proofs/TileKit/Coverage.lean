import Mathlib
import EscapeRoom.Proofs.TileKit.Kits

/-!
# A specification is covered by its entries

The sites of a specification are its cells that no object covers, in the order of the file, and then the positions that
objects cover, column by column. Where objects overlap, the last one owns the position. Each site shows a kind, and the
entries are the kinds that are shown, each at the first site that shows it.
-/

namespace EscapeRoom

theorem foldlM_ok_prefix_induction {α β ε : Type} {f : β → α → Except ε β} {P : List α → β → Prop} {xs : List α}
    {b b' : β} (h : xs.foldlM f b = .ok b') (init : P [] b)
    (step : ∀ done x rest b b', xs = done ++ x :: rest → P done b → f b x = .ok b' → P (done ++ [x]) b') : P xs b' := by
  have hr : ∀ rest done b, xs = done ++ rest → P done b → rest.foldlM f b = .ok b' → P xs b' := by
    intro rest
    induction rest with
    | nil =>
      intro done b hxs hdo h
      rw [hxs, List.append_nil]
      exact Except.ok.inj h ▸ hdo
    | cons x rest ih =>
      intro done b hxs hdo h
      rw [List.foldlM_cons, except_bind_eq_ok] at h
      obtain ⟨b₁, hb₁, h⟩ := h
      exact ih (done ++ [x]) b₁ (by simp [hxs]) (step done x rest b b₁ hxs hdo hb₁) h
  exact hr xs [] b rfl init h

namespace Table

variable {κ ν : Type} [DecidableEq κ] {t : Table κ ν} {new : List (κ × ν)}

theorem get?_putAll {f : κ → ν} (h : ∀ e ∈ new, e.2 = f e.1) (k : κ) :
    (t.putAll new).get? k = if k ∈ new.map (·.1) then some (f k) else t.get? k := by
  unfold putAll
  induction new generalizing t with
  | nil => simp
  | cons e new ih =>
    rw [List.forall_mem_cons] at h
    rw [List.foldl_cons, ih h.2, get?_put, h.1]
    by_cases hmem : k ∈ new.map (·.1)
    · simp only [hmem, List.map_cons, List.mem_cons, or_true, if_true]
    · by_cases hkey : e.1 = k
      · subst hkey
        simp only [hmem, List.map_cons, List.mem_cons, true_or, if_true, if_false]
      · simp only [hmem, hkey, Ne.symm hkey, List.map_cons, List.mem_cons, or_self, if_false]

theorem nodup_keys_putAll (h : t.keys.Nodup) : (t.putAll new).keys.Nodup := by
  unfold putAll
  induction new generalizing t with
  | nil => exact h
  | cons e new ih => exact ih (nodup_keys_put h e.1 e.2)

end Table

namespace TileKit

variable {t : Table (Int × Int) Covered}

/-! ### Objects and the positions they own -/

structure Span where
  x : Int
  y : Int
  width : Int
  height : Int
  deriving DecidableEq

def Span.Contains (r : Span) (p : Int × Int) : Prop :=
  (r.x ≤ p.1 ∧ p.1 < r.x + r.width) ∧ r.y ≤ p.2 ∧ p.2 < r.y + r.height

instance (r : Span) (p : Int × Int) : Decidable (r.Contains p) :=
  inferInstanceAs (Decidable (_ ∧ _))

def spanOf (object : Json) : Except SpecError Span := do
  let x ← integerMember object "x" 0
  let y ← integerMember object "y" 0
  let width ← integerMember object "w" 1
  let height ← integerMember object "h" 1
  return ⟨x, y, width, height⟩

def Covers (object : Json) (p : Int × Int) : Prop :=
  ∃ r, spanOf object = .ok r ∧ r.Contains p

/-- The object is the last one that covers the position, with this span. -/
def Owns (objects : List Json) (p : Int × Int) (object : Json) (r : Span) : Prop :=
  ∃ before after, objects = before ++ object :: after ∧ (spanOf object = .ok r ∧ r.Contains p) ∧
    ∀ o ∈ after, ¬Covers o p

variable {objects : List Json} {o object : Json} {p : Int × Int} {r : Span}

theorem owns_concat : Owns (objects ++ [o]) p object r ↔
    (object = o ∧ spanOf o = .ok r ∧ r.Contains p) ∨ (Owns objects p object r ∧ ¬Covers o p) := by
  constructor
  · rintro ⟨before, after, hs, hsp, ha⟩
    rcases List.eq_nil_or_concat after with rfl | ⟨after, last, rfl⟩
    · obtain ⟨-, hl⟩ := List.append_inj' hs rfl
      obtain rfl : o = object := by simpa using hl
      exact .inl ⟨rfl, hsp⟩
    · rw [List.concat_eq_append] at hs ha
      rw [← List.cons_append, ← List.append_assoc] at hs
      obtain ⟨rfl, hl⟩ := List.append_inj' hs rfl
      obtain rfl : o = last := by simpa using hl
      rw [List.forall_mem_append, List.forall_mem_singleton] at ha
      exact .inr ⟨⟨before, after, rfl, hsp, ha.1⟩, ha.2⟩
  · rintro (⟨rfl, hsp⟩ | ⟨⟨before, after, rfl, hsp, ha⟩, hl⟩)
    · exact ⟨objects, [], rfl, hsp, by simp⟩
    · refine ⟨before, after ++ [o], by simp, hsp, ?_⟩
      rw [List.forall_mem_append, List.forall_mem_singleton]
      exact ⟨ha, hl⟩

theorem exists_owns_iff : (∃ object r, Owns objects p object r) ↔ ∃ o ∈ objects, Covers o p := by
  induction objects using List.reverseRecOn with
  | nil => simp [Owns]
  | append_singleton objects o ih =>
    have hc : Covers o p ↔ ∃ r, spanOf o = .ok r ∧ r.Contains p := Iff.rfl
    simp only [owns_concat, List.mem_append, List.mem_singleton]
    by_cases h : Covers o p
    · obtain ⟨r, hr⟩ := hc.mp h
      exact ⟨fun _ => ⟨o, .inr rfl, h⟩, fun _ => ⟨o, r, .inl ⟨rfl, hr⟩⟩⟩
    · constructor
      · rintro ⟨object, r, ⟨rfl, hr⟩ | ⟨ho, -⟩⟩
        · exact absurd ⟨r, hr⟩ h
        · obtain ⟨o', ho', hco⟩ := ih.mp ⟨object, r, ho⟩
          exact ⟨o', .inl ho', hco⟩
      · rintro ⟨o', ho' | rfl, hco⟩
        · obtain ⟨object, r, ho⟩ := ih.mpr ⟨o', ho', hco⟩
          exact ⟨object, r, .inr ⟨ho, h⟩⟩
        · exact absurd hco h

theorem Owns.unique {object' : Json} {r' : Span} (h : Owns objects p object r) (h' : Owns objects p object' r') :
    object = object' ∧ r = r' := by
  induction objects using List.reverseRecOn with
  | nil => simp [Owns] at h
  | append_singleton objects o ih =>
    rw [owns_concat] at h h'
    rcases h with ⟨rfl, hr⟩ | ⟨h, hnot⟩
    · rcases h' with ⟨rfl, hr'⟩ | ⟨-, hnot⟩
      · exact ⟨rfl, Except.ok.inj (hr.1.symm.trans hr'.1)⟩
      · exact absurd ⟨r, hr⟩ hnot
    · rcases h' with ⟨rfl, hr'⟩ | ⟨h', -⟩
      · exact absurd ⟨r', hr'⟩ hnot
      · exact ih h h'

theorem Owns.spans (h : Owns objects p object r) : spanOf object = .ok r ∧ r.Contains p := by
  obtain ⟨before, after, -, hs, -⟩ := h
  exact hs

/-- The place of a position in the object that covers it. -/
def Span.coveredAt (r : Span) (object : Json) (p : Int × Int) : Covered :=
  ⟨object, (p.1 - r.x).toNat, (p.2 - r.y).toNat⟩

theorem coveredBy_eq_ok {new : List ((Int × Int) × Covered)} (h : coveredBy object = .ok new) :
    ∃ r, spanOf object = .ok r ∧ (∀ p, p ∈ new.map (·.1) ↔ r.Contains p) ∧ ∀ e ∈ new, e.2 = r.coveredAt object e.1 := by
  simp only [coveredBy, except_bind_eq_ok] at h
  obtain ⟨x, hx, y, hy, width, hw, height, hh, h⟩ := h
  obtain rfl := Except.ok.inj h
  refine ⟨⟨x, y, width, height⟩, ?_, ?_, ?_⟩
  · simp only [spanOf, except_bind_eq_ok]
    exact ⟨x, hx, y, hy, width, hw, height, hh, rfl⟩
  · rintro ⟨px, py⟩
    simp only [List.mem_map, List.mem_flatMap, List.mem_range, Span.Contains]
    constructor
    · rintro ⟨e, ⟨dy, hdy, dx, hdx, rfl⟩, he⟩
      obtain ⟨rfl, rfl⟩ := Prod.mk.inj he
      omega
    · intro hp
      refine ⟨_, ⟨(py - y).toNat, by omega, (px - x).toNat, by omega, rfl⟩, ?_⟩
      rw [Prod.mk.injEq]
      omega
  · intro e he
    simp only [List.mem_flatMap, List.mem_map, List.mem_range] at he
    obtain ⟨dy, hdy, dx, hdx, rfl⟩ := he
    simp only [Span.coveredAt, Covered.mk.injEq, true_and]
    omega

/-- The table knows the owner of every position that is covered. -/
structure Maps (objects : List Json) (t : Table (Int × Int) Covered) : Prop where
  nodup : t.keys.Nodup
  spans : ∀ object ∈ objects, ∃ r, spanOf object = .ok r
  get?_eq : ∀ p c, t.get? p = some c ↔ ∃ object r, Owns objects p object r ∧ c = r.coveredAt object p

theorem Maps.concat {new : List ((Int × Int) × Covered)} (h : Maps objects t)
    (hnew : coveredBy o = .ok new) : Maps (objects ++ [o]) (t.putAll new) := by
  obtain ⟨r, hr, hk, hv⟩ := coveredBy_eq_ok hnew
  refine ⟨Table.nodup_keys_putAll h.nodup, ?_, ?_⟩
  · rw [List.forall_mem_append, List.forall_mem_singleton]
    exact ⟨h.spans, r, hr⟩
  · intro p c
    have hco : Covers o p ↔ r.Contains p := by
      constructor
      · rintro ⟨r', hr', hp⟩
        rwa [Except.ok.inj (hr.symm.trans hr')]
      · exact fun hp => ⟨r, hr, hp⟩
    rw [Table.get?_putAll hv]
    simp only [owns_concat, hk, hco]
    split
    · rename_i hp
      constructor
      · intro hc
        exact ⟨o, r, .inl ⟨rfl, hr, hp⟩, (Option.some.inj hc).symm⟩
      · rintro ⟨object, r', ⟨rfl, hr', -⟩ | ⟨-, hnot⟩, rfl⟩
        · rw [Except.ok.inj (hr.symm.trans hr')]
        · exact absurd hp hnot
    · rename_i hp
      rw [h.get?_eq]
      constructor
      · rintro ⟨object, r', ho, hc⟩
        exact ⟨object, r', .inr ⟨ho, hp⟩, hc⟩
      · rintro ⟨object, r', ⟨rfl, hr', hp'⟩ | ⟨ho, -⟩, hc⟩
        · rw [Except.ok.inj (hr'.symm.trans hr)] at hp'
          exact absurd hp' hp
        · exact ⟨object, r', ho, hc⟩

theorem maps_of_foldlM (h : objects.foldlM (fun t object => do return Table.putAll t (← coveredBy object)) [] = .ok t) :
    Maps objects t := by
  refine foldlM_ok_prefix_induction (P := Maps) h ⟨by simp [Table.keys], by simp, by simp [Owns]⟩ ?_
  intro done object rest t t' _ ht hs
  rw [except_bind_eq_ok] at hs
  obtain ⟨new, hnew, hs⟩ := hs
  exact Except.ok.inj hs ▸ ht.concat hnew

theorem Maps.has_iff (h : Maps objects t) : t.has p = true ↔ ∃ o ∈ objects, Covers o p := by
  rw [← exists_owns_iff, Table.has, Option.isSome_iff_exists]
  constructor
  · rintro ⟨c, hc⟩
    obtain ⟨object, r, ho, -⟩ := (h.get?_eq p c).mp hc
    exact ⟨object, r, ho⟩
  · rintro ⟨object, r, ho⟩
    exact ⟨_, (h.get?_eq p _).mpr ⟨object, r, ho, rfl⟩⟩

/-! ### Sites and what they show -/

/-- A cell, by its index in the file, or a position that an object may cover. -/
inductive Site where
  | cell (index : Nat)
  | position (p : Int × Int)

/-- Cells come first in the order of the file, then positions, column by column and from top to bottom. -/
def Site.Before : Site → Site → Prop
  | .cell i, .cell j => i < j
  | .cell _, .position _ => True
  | .position _, .cell _ => False
  | .position p, .position q => p.1 < q.1 ∨ p.1 = q.1 ∧ p.2 < q.2

theorem Site.Before.asymm {a b : Site} (h : a.Before b) : ¬b.Before a := by
  cases a with
  | cell i =>
    cases b with
    | cell j => exact Nat.lt_asymm h
    | position q => exact id
  | position p =>
    cases b with
    | cell j => exact h.elim
    | position q =>
      simp only [Before] at h ⊢
      omega

def positionOf (cell : Json) : Except SpecError (Int × Int) := do
  let x ← integerMember cell "x" 0
  let y ← integerMember cell "y" 0
  return (x, y)

/-- The flags of an entry: something is said to be decoration if nothing else is said about it. -/
def shownFlags (flags : String) : String :=
  if flags.isEmpty then "DECOR" else flags

/-- The kind that a site shows, and an entry that is sampled there. -/
inductive Shows (cells objects : List Json) : Site → Kind → Entry → Prop
  | cell {i : Nat} {cell : Json} {x y : Int} {description flags : String} (id : String) : cells[i]? = some cell →
      positionOf cell = .ok (x, y) → (∀ o ∈ objects, ¬Covers o (x, y)) →
      textMember cell "description" "CELL" = .ok description → flagsMember cell = .ok flags →
      Shows cells objects (.cell i) (.cell description flags)
        { id, name := description, flags := shownFlags flags, x := x * 16, y := y * 16, part := none }
  | part {p : Int × Int} {object objectId : Json} {r : Span} {type description flags : String} (id : String) :
      Owns objects p object r → textMember object "type" "OBJECT" = .ok type →
      textMember object "description" type = .ok description → flagsMember object = .ok flags →
      memberOr object "id" (.str "") = .ok objectId →
      Shows cells objects (.position p) (.part type description flags (p.1 - r.x) (p.2 - r.y) r.width r.height)
        { id
          name := partName type description (p.1 - r.x) (p.2 - r.y) r.width r.height
          flags := shownFlags flags
          x := p.1 * 16
          y := p.2 * 16
          part := some ⟨objectId, type, description, r.width, r.height, p.1 - r.x, p.2 - r.y⟩ }

def Hidden (cells objects : List Json) : Site → Prop
  | .cell i => ∃ cell p, cells[i]? = some cell ∧ positionOf cell = .ok p ∧ ∃ o ∈ objects, Covers o p
  | .position _ => False

def autoId (i : Nat) : String :=
  "AUTO_" ++ Number.decimalZeros 3 (i + 1 : Nat)

/-- The entries are the kinds that the sites met so far show, each at the first site that shows it. -/
structure Lists (cells objects : List Json) (met : Site → Prop) (sites : List (Site × Kind)) (entries : List Entry) :
    Prop where
  ids : entries.map Entry.id = (List.range entries.length).map autoId
  shown : List.Forall₂ (fun a e => Shows cells objects a.1 a.2 e) sites entries
  ordered : sites.Pairwise fun a b => a.1.Before b.1
  distinct : (sites.map (·.2)).Nodup
  among : ∀ a ∈ sites, met a.1
  answered : ∀ site, met site → Hidden cells objects site ∨ ∃ kind e, Shows cells objects site kind e
  complete : ∀ site kind e, met site → Shows cells objects site kind e → kind ∈ sites.map (·.2)
  first : ∀ a ∈ sites, ∀ site e, met site → Shows cells objects site a.2 e → ¬site.Before a.1

variable {cells : List Json} {met : Site → Prop} {sites : List (Site × Kind)} {entries : List Entry} {site : Site}

theorem Hidden.not_shows (h : Hidden cells objects site) (kind : Kind) (e : Entry) :
    ¬Shows cells objects site kind e := by
  rintro (⟨_, hc, hp, hf, -, -⟩ | ⟨_, -⟩)
  · obtain ⟨cell, p, hc', hp', o, ho, hco⟩ := h
    obtain rfl := Option.some.inj (hc.symm.trans hc')
    obtain rfl := Except.ok.inj (hp.symm.trans hp')
    exact hf o ho hco
  · exact h

namespace Lists

theorem nil : Lists cells objects (fun _ => False) [] [] := by
  constructor <;> simp

theorem skip (h : Lists cells objects met sites entries) (hh : Hidden cells objects site) :
    Lists cells objects (fun a => met a ∨ a = site) sites entries := by
  refine { h with among := fun a ha => .inl (h.among a ha), answered := ?_, complete := ?_, first := ?_ }
  · rintro a (ha | rfl)
    · exact h.answered a ha
    · exact .inl hh
  · rintro a kind e (ha | rfl) hs
    · exact h.complete a kind e ha hs
    · exact absurd hs (hh.not_shows kind e)
  · rintro a ha b e (hb | rfl) hs
    · exact h.first a ha b e hb hs
    · exact absurd hs (hh.not_shows a.2 e)

theorem again {kind : Kind} {entry : Entry} (h : Lists cells objects met sites entries)
    (hl : ∀ a, met a → a.Before site) (hki : ∀ k e, Shows cells objects site k e → k = kind)
    (hmem : kind ∈ sites.map (·.2)) (hs : Shows cells objects site kind entry) :
    Lists cells objects (fun a => met a ∨ a = site) sites entries := by
  refine { h with among := fun a ha => .inl (h.among a ha), answered := ?_, complete := ?_, first := ?_ }
  · rintro a (ha | rfl)
    · exact h.answered a ha
    · exact .inr ⟨kind, entry, hs⟩
  · rintro a k e (ha | rfl) hk
    · exact h.complete a k e ha hk
    · exact hki k e hk ▸ hmem
  · rintro a ha b e (hb | rfl) hb'
    · exact h.first a ha b e hb hb'
    · exact (hl a.1 (h.among a ha)).asymm

theorem concat {kind : Kind} {entry : Entry} (h : Lists cells objects met sites entries)
    (hl : ∀ a, met a → a.Before site) (hki : ∀ k e, Shows cells objects site k e → k = kind)
    (hnew : kind ∉ sites.map (·.2)) (hs : Shows cells objects site kind entry) (hid : entry.id = autoId entries.length) :
    Lists cells objects (fun a => met a ∨ a = site) (sites ++ [(site, kind)]) (entries ++ [entry]) where
  ids := by simp [h.ids, hid, List.range_succ]
  shown := List.rel_append h.shown (.cons hs .nil)
  ordered := by
    rw [List.pairwise_append]
    refine ⟨h.ordered, List.pairwise_singleton _ _, fun a ha b hb => ?_⟩
    rw [List.mem_singleton.mp hb]
    exact hl a.1 (h.among a ha)
  distinct := by
    rw [List.map_append, List.nodup_append']
    exact ⟨h.distinct, List.nodup_singleton _, by simpa using hnew⟩
  among := by
    rw [List.forall_mem_append, List.forall_mem_singleton]
    exact ⟨fun a ha => .inl (h.among a ha), .inr rfl⟩
  answered := by
    rintro a (ha | rfl)
    · exact h.answered a ha
    · exact .inr ⟨kind, entry, hs⟩
  complete := by
    rw [List.map_append]
    rintro a k e (ha | rfl) hk
    · exact List.mem_append_left _ (h.complete a k e ha hk)
    · exact List.mem_append_right _ (List.mem_singleton.mpr (hki k e hk))
  first := by
    rw [List.forall_mem_append, List.forall_mem_singleton]
    constructor
    · rintro a ha b e (hb | rfl) hb'
      · exact h.first a ha b e hb hb'
      · exact (hl a.1 (h.among a ha)).asymm
    · rintro b e (hb | rfl) hb'
      · exact absurd (h.complete b kind e hb hb') hnew
      · exact fun hse => hse.asymm hse

end Lists

/-- The expansion lists the kinds of the sites met so far. -/
def Expansion.Tells (cells objects : List Json) (met : Site → Prop) (e : Expansion) : Prop :=
  ∃ sites, e.kinds = sites.map (·.2) ∧ Lists cells objects met sites e.entries

variable {e e' : Expansion} {covered : Table (Int × Int) Covered}

theorem Expansion.Tells.of_iff {met' : Site → Prop} (h : e.Tells cells objects met) (hmet : ∀ a, met a ↔ met' a) :
    e.Tells cells objects met' := by
  obtain rfl : met = met' := funext fun a => propext (hmet a)
  exact h

theorem Expansion.Tells.add {kind : Kind} {name flags : String} {cell : Int × Int} {part : Option ObjectPart}
    (h : e.Tells cells objects met) (hl : ∀ a, met a → a.Before site)
    (hk : ∀ k e, Shows cells objects site k e → k = kind)
    (hs : ∀ id, Shows cells objects site kind
      { id, name, flags := shownFlags flags, x := cell.1 * 16, y := cell.2 * 16, part }) :
    (e.add kind name flags cell part).Tells cells objects fun a => met a ∨ a = site := by
  obtain ⟨sites, hki, hli⟩ := h
  unfold Expansion.add
  split
  · rename_i hmem
    rw [List.contains_iff_mem, hki] at hmem
    exact ⟨sites, hki, hli.again hl hk hmem (hs "")⟩
  · rename_i hnew
    rw [List.contains_iff_mem, hki] at hnew
    exact ⟨sites ++ [(site, kind)], by simp [hki], hli.concat hl hk hnew (hs _) rfl⟩

/-! ### Going through the sites -/

theorem Shows.kind_unique {kind kind' : Kind} {entry entry' : Entry} (h : Shows cells objects site kind entry)
    (h' : Shows cells objects site kind' entry') : kind' = kind := by
  cases h with
  | cell _ hc _ _ hde hf =>
    cases h' with
    | cell _ hc' _ _ hd' hf' =>
      obtain rfl := Option.some.inj (hc.symm.trans hc')
      rw [Except.ok.inj (hd'.symm.trans hde), Except.ok.inj (hf'.symm.trans hf)]
  | part _ ho ht hde hf _ =>
    cases h' with
    | part _ ho' ht' hd' hf' _ =>
      obtain ⟨rfl, rfl⟩ := ho.unique ho'
      obtain rfl := Except.ok.inj (ht.symm.trans ht')
      rw [Except.ok.inj (hd'.symm.trans hde), Except.ok.inj (hf'.symm.trans hf)]

theorem Expansion.Tells.addCell {i : Nat} {cell : Json} (h : e.Tells cells objects met) (hm : Maps objects covered)
    (hc : cells[i]? = some cell) (hl : ∀ a, met a → a.Before (.cell i))
    (hs : addCell covered e cell = .ok e') : e'.Tells cells objects fun a => met a ∨ a = .cell i := by
  simp only [TileKit.addCell, except_bind_eq_ok] at hs
  obtain ⟨x, hx, y, hy, hs⟩ := hs
  have hp : positionOf cell = .ok (x, y) := by
    simp only [positionOf, except_bind_eq_ok]
    exact ⟨x, hx, y, hy, rfl⟩
  split at hs
  · rename_i hco
    obtain rfl := Except.ok.inj hs
    obtain ⟨sites, hki, hli⟩ := h
    exact ⟨sites, hki, hli.skip ⟨cell, (x, y), hc, hp, hm.has_iff.mp hco⟩⟩
  · rename_i hf
    simp only [except_bind_eq_ok] at hs
    obtain ⟨description, hde, flags, hfl, hs⟩ := hs
    obtain rfl := Except.ok.inj hs
    have hf : ∀ o ∈ objects, ¬Covers o (x, y) := by
      intro o ho hcv
      exact hf (hm.has_iff.mpr ⟨o, ho, hcv⟩)
    have hsh := fun id => Shows.cell id hc hp hf hde hfl
    exact h.add hl (fun k entry hk => (hsh "").kind_unique hk) hsh

theorem Expansion.Tells.addPart {c : Covered} (h : e.Tells cells objects met) (hm : Maps objects covered)
    (hp : covered.get? p = some c) (hl : ∀ a, met a → a.Before (.position p))
    (hs : addPart e p c = .ok e') : e'.Tells cells objects fun a => met a ∨ a = .position p := by
  obtain ⟨object, r, ho, rfl⟩ := (hm.get?_eq p c).mp hp
  obtain ⟨hsp, hc⟩ := ho.spans
  simp only [spanOf, except_bind_eq_ok] at hsp
  obtain ⟨x, -, y, -, width, hw, height, hh, hsp⟩ := hsp
  obtain rfl := Except.ok.inj hsp
  simp only [TileKit.addPart, except_bind_eq_ok] at hs
  obtain ⟨type, ht, description, hde, flags, hf, width', hw', he', hh', objectId, hid,
    hs⟩ := hs
  obtain rfl := Except.ok.inj (hw.symm.trans hw')
  obtain rfl := Except.ok.inj (hh.symm.trans hh')
  have hdx : ((p.1 - x).toNat : Int) = p.1 - x := Int.toNat_of_nonneg (by have := hc.1.1; dsimp only at this; omega)
  have hdy : ((p.2 - y).toNat : Int) = p.2 - y := Int.toNat_of_nonneg (by have := hc.2.1; dsimp only at this; omega)
  dsimp only [Span.coveredAt] at hs
  rw [hdx, hdy] at hs
  obtain rfl := Except.ok.inj hs
  have hsh := fun id => @Shows.part cells _ _ _ _ _ _ _ _ id ho ht hde hf hid
  exact h.add hl (fun k entry hk => (hsh "").kind_unique hk) hsh

theorem tells_cells (hm : Maps objects covered) (h : cells.foldlM (TileKit.addCell covered) {} = .ok e) :
    e.Tells cells objects fun a => ∃ i < cells.length, a = .cell i := by
  refine foldlM_ok_prefix_induction
    (P := fun done e => Expansion.Tells cells objects (fun a => ∃ i < done.length, a = .cell i) e) h ?_ ?_
  · exact Expansion.Tells.of_iff ⟨[], rfl, Lists.nil⟩ (by simp)
  · intro done cell rest e e' hc he hs
    refine (he.addCell (i := done.length) hm (by simp [hc]) ?_ hs).of_iff fun a => ?_
    · rintro _ ⟨i, hi, rfl⟩
      exact hi
    · constructor
      · rintro (⟨i, hi, rfl⟩ | rfl)
        · exact ⟨i, by simp; omega, rfl⟩
        · exact ⟨done.length, by simp, rfl⟩
      · rintro ⟨i, hi, rfl⟩
        rw [List.length_append, List.length_singleton] at hi
        rcases Nat.lt_succ_iff_lt_or_eq.mp hi with hi | rfl
        · exact .inl ⟨i, hi, rfl⟩
        · exact .inr rfl

theorem before_mergeSort (h : covered.keys.Nodup) : (covered.mergeSort fun a b => cellLe a.1 b.1).Pairwise fun a b =>
    (Site.position a.1).Before (.position b.1) := by
  have hs : (covered.mergeSort fun a b => cellLe a.1 b.1).Pairwise fun a b => cellLe a.1 b.1 = true := by
    apply List.pairwise_mergeSort
    · intro a b c
      simp only [cellLe, Bool.or_eq_true, Bool.and_eq_true, decide_eq_true_eq, beq_iff_eq]
      omega
    · intro a b
      simp only [cellLe, Bool.or_eq_true, Bool.and_eq_true, decide_eq_true_eq, beq_iff_eq]
      omega
  have hdi : (covered.mergeSort fun a b => cellLe a.1 b.1).Pairwise fun a b => a.1 ≠ b.1 :=
    List.pairwise_map.mp (((List.mergeSort_perm _ _).map Prod.fst).nodup_iff.mpr h)
  refine (hs.and hdi).imp ?_
  rintro ⟨⟨x, y⟩, c⟩ ⟨⟨x', y'⟩, c'⟩ ⟨hle, hne⟩
  simp only [cellLe, Bool.or_eq_true, Bool.and_eq_true, decide_eq_true_eq, beq_iff_eq] at hle
  simp only [ne_eq, Prod.mk.injEq] at hne
  simp only [Site.Before]
  omega

theorem tells_parts {parts : Table (Int × Int) Covered} (hm : Maps objects covered)
    (ho : parts.Pairwise fun a b => (Site.position a.1).Before (.position b.1))
    (hp : ∀ a ∈ parts, covered.get? a.1 = some a.2) (he : e.Tells cells objects fun a => ∃ i < cells.length, a = .cell i)
    (h : parts.foldlM (fun e (cell, c) => TileKit.addPart e cell c) e = .ok e') :
    e'.Tells cells objects fun a => (∃ i < cells.length, a = .cell i) ∨ ∃ b ∈ parts, a = .position b.1 := by
  refine foldlM_ok_prefix_induction (P := fun done e => Expansion.Tells cells objects
    (fun a => (∃ i < cells.length, a = .cell i) ∨ ∃ b ∈ done, a = .position b.1) e) h ?_ ?_
  · exact he.of_iff (by simp)
  · rintro done ⟨p, c⟩ rest e e' rfl he hs
    rw [List.pairwise_append] at ho
    refine (he.addPart hm (hp (p, c) (by simp)) ?_ hs).of_iff fun a => ?_
    · rintro _ (⟨i, -, rfl⟩ | ⟨b, hb, rfl⟩)
      · trivial
      · exact ho.2.2 b hb (p, c) List.mem_cons_self
    · simp only [List.mem_append, List.mem_singleton, or_and_right, exists_or, exists_eq_left, or_assoc]

/-- The cells of the file and the positions that are covered. -/
def IsSite (cells objects : List Json) : Site → Prop
  | .cell i => i < cells.length
  | .position p => ∃ o ∈ objects, Covers o p

/-- The list that a member of the specification gives, an empty one if there is no such member. -/
def Holds (spec : Json) (key : String) (items : List Json) : Prop :=
  ∃ v, memberOr spec key (.arr []) = .ok v ∧ elementsOf v = .ok items

/-- The entries of a specification that can be expanded, numbered in order, are the different kinds that its sites show.
The cells that no object covers come first, in the order of the file, and then the covered positions, each with the last
object that covers it. Every site shows its kind unless it is a covered cell, and an entry is sampled at the first site
that shows its kind. -/
theorem expand_lists_kinds {spec : Json} (h : expand spec = .ok entries) :
    ∃ cells objects sites, Holds spec "cells" cells ∧ Holds spec "objects" objects ∧
      (∀ object ∈ objects, ∃ r, spanOf object = .ok r) ∧ Lists cells objects (IsSite cells objects) sites entries := by
  simp only [expand, except_bind_eq_ok] at h
  obtain ⟨cellsMember, hcells, objectsMember, hobjects, objects, hobjectList, covered, hcovered, cells, hcellList, e, he,
    e', he', h⟩ := h
  obtain rfl := Except.ok.inj h
  have hmaps := maps_of_foldlM hcovered
  have hparts : ∀ a ∈ covered.mergeSort fun a b => cellLe a.1 b.1, covered.get? a.1 = some a.2 := by
    intro a ha
    exact Table.get?_of_mem hmaps.nodup (List.mem_mergeSort.mp ha)
  have hmet : ∀ a, ((∃ i < cells.length, a = Site.cell i) ∨
      ∃ b ∈ covered.mergeSort fun a b => cellLe a.1 b.1, a = .position b.1) ↔ IsSite cells objects a := by
    rintro (i | p)
    · simp [IsSite]
    · rw [IsSite, ← hmaps.has_iff, Table.has, Option.isSome_iff_exists]
      constructor
      · rintro (⟨i, -, hi⟩ | ⟨b, hb, hp⟩)
        · cases hi
        · obtain rfl := Site.position.inj hp
          exact ⟨b.2, hparts b hb⟩
      · rintro ⟨c, hc⟩
        exact .inr ⟨(p, c), List.mem_mergeSort.mpr (Table.mem_of_get? hc), rfl⟩
  obtain ⟨sites, -, hlists⟩ :=
    (tells_parts hmaps (before_mergeSort hmaps.nodup) hparts (tells_cells hmaps he) he').of_iff hmet
  exact ⟨cells, objects, sites, ⟨_, hcells, hcellList⟩, ⟨_, hobjects, hobjectList⟩, hmaps.spans, hlists⟩

/-- A lamp that stands in front of a shelf, and walls. -/
def shelfSpec : Json :=
  .obj [("cells", .arr [.obj [("x", .int 4), ("description", .str " Wall ")],
      .obj [("x", .int 1), ("description", .str "Hidden")], .obj [("description", .str "Wall")]]),
    ("objects", .arr [.obj [("x", .int 1), ("w", .int 2), ("id", .str "s1"), ("type", .str "Shelf")],
      .obj [("x", .int 1), ("id", .str "l1"), ("type", .str "Lamp"), ("flags", .arr [.str "solid"])]])]

def shelfEntries : List Entry :=
  [⟨"AUTO_001", "Wall", "DECOR", 64, 0, none⟩,
    ⟨"AUTO_002", "Lamp Lamp part 1,1/1,1", "SOLID", 16, 0, some ⟨.str "l1", "Lamp", "Lamp", 1, 1, 0, 0⟩⟩,
    ⟨"AUTO_003", "Shelf Shelf part 2,1/2,1", "DECOR", 32, 0, some ⟨.str "s1", "Shelf", "Shelf", 2, 1, 1, 0⟩⟩]

theorem expand_shelfSpec : expand shelfSpec = .ok shelfEntries := by
  cbv

theorem expand_lists_kinds_shelf : ∃ cells objects sites, Holds shelfSpec "cells" cells ∧
    Holds shelfSpec "objects" objects ∧ (∀ object ∈ objects, ∃ r, spanOf object = .ok r) ∧
    Lists cells objects (IsSite cells objects) sites shelfEntries :=
  expand_lists_kinds expand_shelfSpec

end TileKit

end EscapeRoom
