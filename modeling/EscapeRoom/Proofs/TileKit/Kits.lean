import EscapeRoom.Proofs.CleanRuns
import EscapeRoom.Proofs.Literals
import EscapeRoom.Proofs.Sessions
import EscapeRoom.Proofs.Numbering
import EscapeRoom.Proofs.TileKit.Values

/-!
# What the tiles of a kit are like

If no text of a specification goes over several lines, no text of its tiles does. A part of an object lies in the
object, flags have no separators in them, and the colours of the blocks are among the sixteen.
-/

namespace EscapeRoom

section Except

variable {α β ε : Type}

theorem foldlM_ok_induction {f : β → α → Except ε β} {P : β → Prop} {xs : List α} {b b' : β}
    (h : xs.foldlM f b = .ok b') (init : P b)
    (step : ∀ x ∈ xs, ∀ b b', P b → f b x = .ok b' → P b') : P b' := by
  induction xs generalizing b with
  | nil => exact Except.ok.inj h ▸ init
  | cons x xs ih =>
    rw [List.foldlM_cons, except_bind_eq_ok] at h
    obtain ⟨b₁, hb₁, h⟩ := h
    refine ih h (step x List.mem_cons_self b b₁ init hb₁) fun y hy => ?_
    exact step y (List.mem_cons_of_mem x hy)

theorem forall₂_of_mapM_ok {f : α → Except ε β} {xs : List α} {ys : List β} (h : xs.mapM f = .ok ys) :
    List.Forall₂ (fun x y => f x = .ok y) xs ys := by
  induction xs generalizing ys with
  | nil => exact Except.ok.inj h ▸ .nil
  | cons x xs ih =>
    rw [List.mapM_cons, except_bind_eq_ok] at h
    obtain ⟨y, hy, h⟩ := h
    rw [except_bind_eq_ok] at h
    obtain ⟨ys', hys', h⟩ := h
    exact Except.ok.inj h ▸ .cons hy (ih hys')

end Except

namespace Text

def Unbroken (s : String) : Prop :=
  '\n' ∉ s.toList ∧ '\r' ∉ s.toList

instance (s : String) : Decidable (Unbroken s) :=
  inferInstanceAs (Decidable (_ ∧ _))

variable {s t : String}

theorem unbroken_append : Unbroken (s ++ t) ↔ Unbroken s ∧ Unbroken t := by
  simp only [Unbroken, String.toList_append, List.mem_append, not_or]
  tauto

theorem Unbroken.of_subset (h : Unbroken s) (hsub : ∀ c ∈ t.toList, c ∈ s.toList) : Unbroken t :=
  ⟨fun hc => h.1 (hsub _ hc), fun hc => h.2 (hsub _ hc)⟩

theorem unbroken_trim (h : Unbroken s) : Unbroken (trim s) := by
  refine h.of_subset fun c hc => ?_
  rw [trim, String.toList_ofList, trimChars, trimEnd] at hc
  have hc := List.mem_reverse.mp ((List.dropWhile_suffix _).subset (List.mem_reverse.mp hc))
  exact (List.dropWhile_suffix _).subset hc

theorem unbroken_of_isBlank (h : ∀ c ∈ s.toList, isBlank c = false) : Unbroken s :=
  ⟨fun hc => absurd (h _ hc) (by decide), fun hc => absurd (h _ hc) (by decide)⟩

theorem unbroken_join {sep : String} {texts : List String} (hsep : Unbroken sep) (h : ∀ t ∈ texts, Unbroken t) :
    Unbroken (join sep texts) := by
  induction texts with
  | nil => exact ⟨List.not_mem_nil, List.not_mem_nil⟩
  | cons t rest ih =>
    rw [List.forall_mem_cons] at h
    cases rest with
    | nil => exact h.1
    | cons u rest =>
      rw [join, unbroken_append, unbroken_append]
      · exact ⟨⟨h.1, hsep⟩, ih h.2⟩
      · simp

end Text

open Text (Unbroken)

namespace Number.Double

def isTextChar (c : Char) : Bool :=
  c.isDigit || ['-', '+', '.', 'e', 'i', 'n', 'f', 'a'].contains c

theorem isTextChar_of_mem_toDigits {n : Nat} {c : Char} (h : c ∈ Nat.toDigits 10 n) : isTextChar c = true := by
  rw [isTextChar, Nat.isDigit_of_mem_toDigits (by decide) (by decide) h]
  rfl

theorem isTextChar_shortestDecimal (b : Binary) : ∀ c ∈ (shortestDecimal b).digits, isTextChar c = true := by
  intro c hc
  unfold shortestDecimal at hc
  dsimp only at hc
  split at hc
  · have hc := List.mem_reverse.mp ((List.dropWhile_suffix _).subset (List.mem_reverse.mp hc))
    exact isTextChar_of_mem_toDigits hc
  · exact isTextChar_of_mem_toDigits hc

theorem isTextChar_positional {d : Decimal} (h : ∀ c ∈ d.digits, isTextChar c = true) :
    ∀ c ∈ d.positional, isTextChar c = true := by
  have hz : ∀ n, ∀ c ∈ List.replicate n '0', isTextChar c = true := by
    intro n c hc
    rw [List.eq_of_mem_replicate hc]
    decide
  unfold Decimal.positional
  split
  · simp only [List.cons_append, List.forall_mem_cons, List.forall_mem_append]
    exact ⟨by decide, by decide, hz _, h⟩
  · extract_lets whole places
    simp only [List.forall_mem_cons, List.forall_mem_append]
    refine ⟨⟨fun c hc => h c (List.mem_of_mem_take hc), hz _⟩, by decide, ?_⟩
    split
    · decide
    · exact fun c hc => h c (List.mem_of_mem_drop hc)

theorem isTextChar_scientific {d : Decimal} (h : ∀ c ∈ d.digits, isTextChar c = true) :
    ∀ c ∈ d.scientific, isTextChar c = true := by
  unfold Decimal.scientific
  extract_lets exponent digits mantissa
  have hm : ∀ c ∈ mantissa, isTextChar c = true := by
    unfold mantissa
    split
    · decide
    · rename_i hd
      exact hd ▸ h
    · rename_i hd
      rw [hd, List.forall_mem_cons] at h
      exact List.forall_mem_cons.mpr ⟨h.1, List.forall_mem_cons.mpr ⟨by decide, h.2⟩⟩
  simp only [List.forall_mem_cons, List.forall_mem_append]
  refine ⟨⟨hm, by decide, ?_, ?_⟩, fun c hc => isTextChar_of_mem_toDigits hc⟩
  · split <;> decide
  · intro c hc
    rw [List.eq_of_mem_replicate hc]
    decide

theorem isTextChar_text (x : Double) : ∀ c ∈ x.text.toList, isTextChar c = true := by
  have hs : ∀ negative : Bool, ∀ c ∈ (if negative = true then ['-'] else []), isTextChar c = true := by
    decide
  cases x with
  | finite b =>
    simp only [text]
    split
    · rw [String.toList_ofList, List.forall_mem_append]
      exact ⟨hs _, by decide⟩
    · rw [String.toList_ofList, List.forall_mem_append]
      refine ⟨hs _, ?_⟩
      split
      · exact isTextChar_scientific (isTextChar_shortestDecimal b)
      · exact isTextChar_positional (isTextChar_shortestDecimal b)
  | infinite negative => cases negative <;> decide
  | undefined => decide

theorem unbroken_text (x : Double) : Unbroken x.text :=
  ⟨fun hc => absurd (isTextChar_text x _ hc) (by decide), fun hc => absurd (isTextChar_text x _ hc) (by decide)⟩

end Number.Double

inductive Json.OneLine : Json → Prop
  | null : OneLine .null
  | bool (b : Bool) : OneLine (.bool b)
  | int (n : Int) : OneLine (.int n)
  | real (x : Number.Double) : OneLine (.real x)
  | str {s : String} : Unbroken s → OneLine (.str s)
  | arr {items : List Json} : (∀ v ∈ items, OneLine v) → OneLine (.arr items)
  | obj {members : List (String × Json)} : (∀ m ∈ members, Unbroken m.1) → (∀ m ∈ members, OneLine m.2) →
      OneLine (.obj members)

namespace TileKit

variable {v m : Json} {key : String}

theorem oneLine_memberOr {default : Json} (hv : v.OneLine) (hde : default.OneLine)
    (h : memberOr v key default = .ok m) : m.OneLine := by
  cases hv with
  | obj _ hm =>
    obtain rfl := Except.ok.inj h
    rw [Table.getD]
    cases hget : Table.get? _ key with
    | none => exact hde
    | some w => exact hm _ (Table.mem_of_get? hget)
  | _ => cases h

theorem oneLine_elementsOf {items : List Json} (hv : v.OneLine) (h : elementsOf v = .ok items) :
    ∀ w ∈ items, w.OneLine := by
  cases hv with
  | arr hi => exact Except.ok.inj h ▸ hi
  | obj hk _ =>
    obtain rfl := Except.ok.inj h
    rw [List.forall_mem_map]
    exact fun m hm => .str (hk m hm)
  | str hs =>
    obtain rfl := Except.ok.inj h
    rw [List.forall_mem_map]
    refine fun c hc => .str (hs.of_subset fun d hd => ?_)
    rw [String.toList_singleton, List.mem_singleton] at hd
    exact hd ▸ hc
  | _ => cases h

theorem unbroken_textMember {instead text : String} (hv : v.OneLine) (hi : Unbroken instead)
    (h : textMember v key instead = .ok text) : Unbroken text := by
  rw [textMember, except_bind_eq_ok] at h
  obtain ⟨m, hm, h⟩ := h
  have hm := oneLine_memberOr hv .null hm
  split at h
  · exact Except.ok.inj h ▸ Text.unbroken_trim hi
  · cases hm with
    | str hs => exact Except.ok.inj h ▸ Text.unbroken_trim hs
    | _ => cases h

theorem isFlagText_flagsMember {flags : String} (h : flagsMember v = .ok flags) :
    IsFlagText (if flags.isEmpty then "DECOR" else flags) := by
  simp only [flagsMember, except_bind_eq_ok] at h
  obtain ⟨_, _, _, _, _, _, h⟩ := h
  split
  · exact ⟨by decide, by decide⟩
  · rename_i hne
    obtain rfl := Except.ok.inj h
    exact isFlagText_flagsText (by simpa using hne)

/-! ### Entries -/

structure ObjectPart.Sound (p : ObjectPart) : Prop where
  type : Unbroken p.type
  description : Unbroken p.description
  objectId : p.objectId.OneLine
  dx : 0 ≤ p.dx ∧ p.dx < p.width
  dy : 0 ≤ p.dy ∧ p.dy < p.height

structure Entry.Sound (e : Entry) : Prop where
  flags : IsFlagText e.flags
  part : ∀ p, e.part = some p → p.Sound

/-- A covered cell lies in the object that covers it. -/
structure Covered.Sound (c : Covered) : Prop where
  object : c.object.OneLine
  width : ∃ w, integerMember c.object "w" 1 = .ok w ∧ (c.dx : Int) < w
  height : ∃ h, integerMember c.object "h" 1 = .ok h ∧ (c.dy : Int) < h

theorem sound_coveredBy {object : Json} {cells : List ((Int × Int) × Covered)} (ho : object.OneLine)
    (h : coveredBy object = .ok cells) : ∀ e ∈ cells, e.2.Sound := by
  simp only [coveredBy, except_bind_eq_ok] at h
  obtain ⟨x, -, y, -, width, hw, height, hh, h⟩ := h
  obtain rfl := Except.ok.inj h
  intro e he
  simp only [List.mem_flatMap, List.mem_map, List.mem_range] at he
  obtain ⟨dy, hdy, dx, hdx, rfl⟩ := he
  exact ⟨ho, ⟨width, hw, by dsimp only; omega⟩, ⟨height, hh, by dsimp only; omega⟩⟩

theorem forall_mem_putAll {κ ν : Type} [DecidableEq κ] {P : κ × ν → Prop} {t : Table κ ν} {new : List (κ × ν)}
    (ht : ∀ e ∈ t, P e) (hnew : ∀ e ∈ new, P e) : ∀ e ∈ t.putAll new, P e := by
  unfold Table.putAll
  induction new generalizing t with
  | nil => exact ht
  | cons e new ih =>
    rw [List.forall_mem_cons] at hnew
    exact ih (Table.forall_mem_put ht hnew.1) hnew.2

theorem sound_add {e : Expansion} {kind : Kind} {name flags : String} {cell : Int × Int} {part : Option ObjectPart}
    (he : ∀ x ∈ e.entries, x.Sound) (hf : IsFlagText (if flags.isEmpty then "DECOR" else flags))
    (hp : ∀ p, part = some p → p.Sound) : ∀ x ∈ (e.add kind name flags cell part).entries, x.Sound := by
  unfold Expansion.add
  split
  · exact he
  · rw [List.forall_mem_append, List.forall_mem_singleton]
    exact ⟨he, hf, hp⟩

theorem sound_addCell {covered : Table (Int × Int) Covered} {e e' : Expansion} {cell : Json}
    (he : ∀ x ∈ e.entries, x.Sound) (h : addCell covered e cell = .ok e') : ∀ x ∈ e'.entries, x.Sound := by
  simp only [addCell, except_bind_eq_ok] at h
  obtain ⟨x, -, y, -, h⟩ := h
  split at h
  · exact Except.ok.inj h ▸ he
  · simp only [except_bind_eq_ok] at h
    obtain ⟨description, -, flags, hf, h⟩ := h
    exact Except.ok.inj h ▸ sound_add he (isFlagText_flagsMember hf) (by simp)

theorem sound_addPart {e e' : Expansion} {cell : Int × Int} {c : Covered} (hc : c.Sound)
    (he : ∀ x ∈ e.entries, x.Sound) (h : addPart e cell c = .ok e') : ∀ x ∈ e'.entries, x.Sound := by
  simp only [addPart, except_bind_eq_ok] at h
  obtain ⟨type, ht, description, hde, flags, hf, width, hwi, height, hhe, objectId, hid, h⟩ := h
  obtain ⟨w, hw, hdx⟩ := hc.width
  obtain rfl := Except.ok.inj (hw.symm.trans hwi)
  obtain ⟨h', hh, hdy⟩ := hc.height
  obtain rfl := Except.ok.inj (hh.symm.trans hhe)
  have ht := unbroken_textMember hc.object (by decide) ht
  obtain rfl := Except.ok.inj h
  refine sound_add he (isFlagText_flagsMember hf) fun p hp => ?_
  obtain rfl := Option.some.inj hp
  exact ⟨ht, unbroken_textMember hc.object ht hde,
    oneLine_memberOr hc.object (.str (by decide)) hid, ⟨by simp, hdx⟩, ⟨by simp, hdy⟩⟩

theorem sound_expand {spec : Json} {entries : List Entry} (hs : spec.OneLine) (h : expand spec = .ok entries) :
    ∀ e ∈ entries, e.Sound := by
  simp only [expand, except_bind_eq_ok] at h
  obtain ⟨cells, hce, objects, ho, objectList, hl, covered, hco, cellList, -, e, he, e', he', h⟩ := h
  have ho := oneLine_elementsOf (oneLine_memberOr hs (.arr (by simp)) ho) hl
  have hco : ∀ c ∈ covered, c.2.Sound := by
    refine foldlM_ok_induction (P := fun t => ∀ c ∈ t, c.2.Sound) hco (by simp) ?_
    intro object hob t t' ht hst
    rw [except_bind_eq_ok] at hst
    obtain ⟨new, hnew, hst⟩ := hst
    obtain rfl := Except.ok.inj hst
    exact forall_mem_putAll ht (sound_coveredBy (ho object hob) hnew)
  have he : ∀ x ∈ e.entries, x.Sound := by
    refine foldlM_ok_induction (P := fun e => ∀ x ∈ e.entries, x.Sound) he (by simp) ?_
    intro cell _ e e' he hst
    exact sound_addCell he hst
  obtain rfl := Except.ok.inj h
  refine foldlM_ok_induction (P := fun e => ∀ x ∈ e.entries, x.Sound) he' he ?_
  rintro ⟨cell, c⟩ hc e e' he hst
  exact sound_addPart (hco _ (List.mem_mergeSort.mp hc)) he hst

/-! ### Tiles -/

/-- A tile whose texts stay on one line and whose values can be written. -/
structure KitTile.Sound (t : KitTile) : Prop where
  name : IsTileName t.name
  flags : IsFlagText t.flags
  role : Unbroken t.role
  variant : t.variant.OneLine
  part : ∀ p, t.part = some p → p.Sound
  colors : ∀ n ∈ t.block.colors.toList, n < 16

theorem colors_sample? {r : Raster} {s : SharedColors} {x y : Int} {b : Block} (h : Block.sample? r s x y = some b) :
    ∀ n ∈ b.colors.toList, n < 16 := by
  unfold Block.sample? at h
  split at h
  · cases h
  · obtain rfl := Option.some.inj h
    have hlc : ∀ cell, (Multicolor.encode s cell).lc < 16 := fun cell => (Multicolor.bestLocal_spec s _).1
    simp [Quad.map, Quad.toList, hlc]

section Fields

variable (e : Entry) (b : Block) (t : KitTile)

@[simp] theorem name_ofEntry : (KitTile.ofEntry e b).name = tileName e.name := by
  simp only [KitTile.ofEntry]

@[simp] theorem flags_ofEntry : (KitTile.ofEntry e b).flags = e.flags := by
  simp only [KitTile.ofEntry]

@[simp] theorem role_ofEntry : (KitTile.ofEntry e b).role = (e.part.map (·.type)).getD "" := by
  simp only [KitTile.ofEntry]

@[simp] theorem variant_ofEntry : (KitTile.ofEntry e b).variant = (e.part.map (·.objectId)).getD (.str "") := by
  simp only [KitTile.ofEntry]

@[simp] theorem part_ofEntry : (KitTile.ofEntry e b).part = e.part := by
  simp only [KitTile.ofEntry]

@[simp] theorem block_ofEntry : (KitTile.ofEntry e b).block = b := by
  simp only [KitTile.ofEntry]

@[simp] theorem name_aliasOf : (aliasOf t).name = tileName (if t.type.isEmpty then "OBJECT" else t.type) := by
  simp only [aliasOf]

@[simp] theorem flags_aliasOf : (aliasOf t).flags = t.flags := by
  simp only [aliasOf]

@[simp] theorem role_aliasOf :
    (aliasOf t).role = Text.join " - " ([t.type, t.description].filter (! String.isEmpty ·)) := by
  simp only [aliasOf]

@[simp] theorem variant_aliasOf : (aliasOf t).variant = t.variant := by
  simp only [aliasOf]

@[simp] theorem part_aliasOf : (aliasOf t).part = t.part := by
  simp only [aliasOf]

@[simp] theorem block_aliasOf : (aliasOf t).block = t.block := by
  simp only [aliasOf]

end Fields

theorem sound_ofEntry {e : Entry} {b : Block} (he : e.Sound) (hb : ∀ n ∈ b.colors.toList, n < 16) :
    (KitTile.ofEntry e b).Sound where
  name := name_ofEntry e b ▸ isTileName_tileName e.name
  flags := flags_ofEntry e b ▸ he.flags
  role := by
    rw [role_ofEntry]
    cases hp : e.part with
    | none => exact (by decide : Unbroken "")
    | some p => exact (he.part p hp).type
  variant := by
    rw [variant_ofEntry]
    cases hp : e.part with
    | none => exact .str (by decide)
    | some p => exact (he.part p hp).objectId
  part := part_ofEntry e b ▸ he.part
  colors := block_ofEntry e b ▸ hb

theorem sound_sampleAll {r : Raster} {s : SharedColors} {entries : List Entry} {tiles : List KitTile}
    (he : ∀ e ∈ entries, e.Sound) (h : sampleAll r s entries = .ok tiles) : ∀ t ∈ tiles, t.Sound := by
  refine forall_mem_of_forall₂ (forall₂_of_mapM_ok h) fun e hmem t ht => ?_
  split at ht
  · rename_i b hb
    exact Except.ok.inj ht ▸ sound_ofEntry (he e hmem) (colors_sample? hb)
  · cases ht

namespace KitTile.Sound

variable {t : KitTile}

theorem type (h : t.Sound) : Unbroken t.type := by
  rw [KitTile.type]
  cases hp : t.part with
  | none => exact (by decide : Unbroken "")
  | some p => exact (h.part p hp).type

theorem description (h : t.Sound) : Unbroken t.description := by
  rw [KitTile.description]
  cases hp : t.part with
  | none => exact (by decide : Unbroken "")
  | some p => exact (h.part p hp).description

theorem offset (h : t.Sound) : (0 ≤ t.offset.1 ∧ t.offset.1 < t.objectSize.1) ∧
    0 ≤ t.offset.2 ∧ t.offset.2 < t.objectSize.2 := by
  rw [KitTile.offset, KitTile.objectSize]
  cases hp : t.part with
  | none => simp
  | some p => exact ⟨(h.part p hp).dx, (h.part p hp).dy⟩

theorem ofAlias (h : t.Sound) : (aliasOf t).Sound := by
  refine ⟨?_, ?_, ?_, ?_, ?_, ?_⟩
  · rw [name_aliasOf]
    exact isTileName_tileName _
  · rw [flags_aliasOf]
    exact h.flags
  · rw [role_aliasOf]
    refine Text.unbroken_join (by decide) fun text ht => ?_
    have ht := (List.mem_filter.mp ht).1
    simp only [List.mem_cons, List.not_mem_nil, or_false] at ht
    rcases ht with rfl | rfl
    · exact h.type
    · exact h.description
  · rw [variant_aliasOf]
    exact h.variant
  · rw [part_aliasOf]
    exact h.part
  · rw [block_aliasOf]
    exact h.colors

end KitTile.Sound

/-! ### Groups -/

theorem mem_of_mem_groupsOf {tiles : List KitTile} {groups : List ObjectGroup} (h : groupsOf tiles = .ok groups) :
    ∀ g ∈ groups, ∀ t ∈ g.tiles, t ∈ tiles ∧ ∃ key, objectKey t.variant = .ok key := by
  rw [groupsOf, except_bind_eq_ok] at h
  obtain ⟨table, hta, h⟩ := h
  obtain rfl := Except.ok.inj h
  refine foldlM_ok_induction (P := fun (table : Table ObjectKey ObjectGroup) => ∀ g ∈ table.values, ∀ t ∈ g.tiles,
    t ∈ tiles ∧ ∃ key, objectKey t.variant = .ok key) hta (by simp [Table.values]) ?_
  intro t ht table table' hgr hs
  rw [except_bind_eq_ok] at hs
  obtain ⟨key, hkey, hs⟩ := hs
  obtain rfl := Except.ok.inj hs
  have ht : t ∈ tiles ∧ ∃ key, objectKey t.variant = .ok key := ⟨(List.mem_filter.mp ht).1, key, hkey⟩
  refine Table.forall_mem_values_put hgr ?_
  split
  · rename_i g hg
    have hg := hgr g (Table.mem_values (Table.mem_of_get? hg))
    rw [ObjectGroup.tiles, List.forall_mem_cons] at hg ⊢
    rw [List.forall_mem_append, List.forall_mem_singleton]
    exact ⟨hg.1, hg.2, ht⟩
  · simpa [ObjectGroup.tiles] using ht

theorem unbroken_idText {key : ObjectKey} (hv : v.OneLine) (h : objectKey v = .ok key) : Unbroken (idText v) := by
  cases hv with
  | str hs => exact hs
  | bool b => cases b <;> decide
  | real x => exact x.unbroken_text
  | int n =>
    refine ⟨fun hc => ?_, fun hc => ?_⟩
    · exact (Number.mem_toString hc).elim (absurd · (by decide)) (absurd · (by decide))
    · exact (Number.mem_toString hc).elim (absurd · (by decide)) (absurd · (by decide))
  | _ => cases h

theorem unbroken_label {g : ObjectGroup} (hg : ∀ t ∈ g.tiles, t.Sound ∧ ∃ key, objectKey t.variant = .ok key) :
    Unbroken g.label := by
  unfold ObjectGroup.label
  extract_lets t
  have ht : t ∈ g.tiles := by
    unfold t
    cases hl : g.others.getLast? with
    | none => exact List.mem_cons_self
    | some u => exact List.mem_cons_of_mem _ (List.mem_of_getLast? hl)
  obtain ⟨hs, key, hkey⟩ := hg t ht
  split
  · exact unbroken_idText hs.variant hkey
  · exact hs.description

end TileKit

end EscapeRoom
