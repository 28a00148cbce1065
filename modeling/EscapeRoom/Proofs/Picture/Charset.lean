import Mathlib.Algebra.BigOperators.Fin
import Mathlib.Data.List.Perm.Subperm
import Mathlib.InformationTheory.Hamming
import EscapeRoom.Picture.Charset
import EscapeRoom.Proofs.Numbering
import EscapeRoom.Proofs.Sections

/-!
# Charsets lose as little as possible

A charset for a list of characters keeps all of them if there is room, in the order in which they are met. Otherwise it
keeps characters that are met most often, and every other character is shown by the first of the kept ones that differ
from it in the fewest bits.
-/

namespace EscapeRoom

section LeastAt

variable {α : Type} {cost : α → Nat} {l : List α}

/-- The element at a position costs no more than any other, and less than those before it. -/
def LeastAt (cost : α → Nat) (l : List α) (i : Nat) : Prop :=
  ∃ a, l[i]? = some a ∧ (∀ b ∈ l, cost a ≤ cost b) ∧ ∀ j < i, ∀ b, l[j]? = some b → cost a < cost b

theorem LeastAt.congr {cost' : α → Nat} {i : Nat} (h : LeastAt cost l i) (hc : ∀ a ∈ l, cost a = cost' a) :
    LeastAt cost' l i := by
  obtain ⟨a, ha, hle, hlt⟩ := h
  have hs := hc a (List.mem_of_getElem? ha)
  refine ⟨a, ha, fun b hb => ?_, fun j hj b hb => ?_⟩
  · rw [← hs, ← hc b hb]
    exact hle b hb
  · rw [← hs, ← hc b (List.mem_of_getElem? hb)]
    exact hlt j hj b hb

theorem IsFirstLeast.leastAt {e : α × Nat} (h : IsFirstLeast (fun e : α × Nat => cost e.1) l.zipIdx e) :
    LeastAt cost l e.2 := by
  refine ⟨e.1, List.mem_zipIdx_iff_getElem?.mp h.mem, fun b hb => ?_, fun j hj b hb => ?_⟩
  · obtain ⟨j, hj⟩ := List.mem_iff_getElem?.mp hb
    have hmem : (b, j) ∈ l.zipIdx := List.mem_zipIdx_iff_getElem?.mpr hj
    exact h.le hmem
  · obtain ⟨before, after, hs, hbe, -⟩ := h
    -- Pairs stand at the positions that they tell.
    have hl : before.length = e.2 := by
      have hp : l.zipIdx[before.length]? = some e := by simp [hs]
      rw [List.getElem?_zipIdx, Option.map_eq_some_iff] at hp
      obtain ⟨a, -, rfl⟩ := hp
      exact (Nat.zero_add _).symm
    have hp : before[j]? = some (b, j) := by
      have hget : l.zipIdx[j]? = some (b, j) := by simp [hb]
      rwa [hs, List.getElem?_append_left (by omega)] at hget
    exact hbe (b, j) (List.mem_of_getElem? hp)

theorem exists_least?_zipIdx (cost : α → Nat) (h : l ≠ []) :
    ∃ e : α × Nat, least? (fun e : α × Nat => cost e.1) l.zipIdx = some (e, cost e.1) ∧ LeastAt cost l e.2 := by
  obtain ⟨a, rest, rfl⟩ := List.exists_cons_of_ne_nil h
  obtain ⟨e, hf, hl⟩ := leastFrom_head (fun e : α × Nat => cost e.1) (a, 0) (rest.zipIdx 1)
  exact ⟨e, congrArg some hf, hl.leastAt⟩

end LeastAt

/-! ### Counting -/

namespace Multicolor

variable {α : Type} [DecidableEq α] [BEq α] [LawfulBEq α]

omit [BEq α] [LawfulBEq α] in
theorem tally_concat (l : List α) (a : α) : tally (l ++ [a]) = (tally l).put a ((tally l).getD a 0 + 1) := by
  simp [tally, List.foldl_append]

theorem keys_tally (l : List α) : (tally l).keys = l.eraseDups := by
  induction l using List.reverseRecOn with
  | nil => rfl
  | append_singleton l a ih =>
    rw [tally_concat, Table.keys_put, ih, List.eraseDups_append]
    by_cases ha : a ∈ l
    · simp [List.removeAll, ha]
    · simp [List.removeAll, ha, List.eraseDups_cons]

omit [BEq α] [LawfulBEq α] in
theorem nodup_keys_tally (l : List α) : (tally l).keys.Nodup := by
  induction l using List.reverseRecOn with
  | nil => exact List.nodup_nil
  | append_singleton l a ih =>
    rw [tally_concat]
    exact Table.nodup_keys_put ih _ _

theorem getD_tally (l : List α) (a : α) : (tally l).getD a 0 = l.count a := by
  induction l using List.reverseRecOn generalizing a with
  | nil => rfl
  | append_singleton l b ih =>
    rw [tally_concat, Table.getD, Table.get?_put, List.count_append]
    by_cases hb : b = a
    · subst hb
      simp [ih]
    · simpa [hb, Table.getD] using ih a

theorem count_of_mem_tally {l : List α} {e : α × Nat} (h : e ∈ tally l) : e.2 = l.count e.1 := by
  rw [← getD_tally, Table.getD, Table.get?_of_mem (nodup_keys_tally l) h, Option.getD_some]

end Multicolor

namespace Charset

open Multicolor (tally keys_tally nodup_keys_tally count_of_mem_tally)

/-! ### Bits -/

def bits (pattern : Bytes) (k : Fin 8 × Fin 8) : Bool :=
  (pattern.getD k.1 0).toNat.testBit k.2

theorem bitCount_xor (x y : UInt8) :
    bitCount (x ^^^ y) = ∑ j : Fin 8, if x.toNat.testBit j ≠ y.toNat.testBit j then 1 else 0 := by
  have hbit : ∀ i, (x ^^^ y).toNat.testBit i = decide (x.toNat.testBit i ≠ y.toNat.testBit i) := by
    intro i
    rw [UInt8.toNat_xor, Nat.testBit_xor]
    cases x.toNat.testBit i <;> cases y.toNat.testBit i <;> rfl
  simp only [bitCount, ← List.countP_eq_length_filter, hbit, Fin.sum_univ_eight]
  simp only [List.range, List.range.loop, List.countP_cons, List.countP_nil, decide_eq_true_eq]
  simp only [Fin.coe_ofNat_eq_mod, Nat.reduceMod]
  ring

theorem distance_eq_hammingDist {a b : Bytes} (ha : a.length = 8) (hb : b.length = 8) :
    distance a b = hammingDist (bits a) (bits b) := by
  have hzip : (a.take 8).zip (b.take 8) = List.ofFn fun i : Fin 8 => (a.getD i 0, b.getD i 0) := by
    refine List.ext_getElem (by simp [ha, hb]) fun i hi hi' => ?_
    have hi : i < 8 := by simpa using hi'
    rw [List.getElem_zip, List.getElem_take, List.getElem_take, List.getElem_ofFn]
    simp [ha, hb, hi]
  rw [distance, hzip, List.map_ofFn, ← List.sum_eq_foldl, List.sum_ofFn, hammingDist, Finset.card_filter,
    Fintype.sum_prod_type]
  exact Finset.sum_congr rfl fun i _ => bitCount_xor _ _

/-! ### Slots -/

variable {kept patterns : List Bytes}

theorem fillSlot_append {done rest p : Bytes} {n : Nat} (hdo : done.length = n * 8) :
    fillSlot (done ++ rest) n p = done ++ p ++ rest.drop 8 := by
  have hn : (n + 1) * 8 = done.length + 8 := by omega
  rw [fillSlot, hn, ← hdo, List.take_left, List.drop_length_add_append]

theorem length_flatten (hk : ∀ p ∈ kept, p.length = 8) : kept.flatten.length = 8 * kept.length := by
  rw [← List.flatMap_id]
  exact Bytes.length_flatMap_const (f := id) hk

theorem slotBytes_eq (hk : ∀ p ∈ kept, p.length = 8) :
    slotBytes kept = kept.flatten ++ List.replicate (2048 - 8 * kept.length) 0 := by
  induction kept using List.reverseRecOn with
  | nil => rfl
  | append_singleton kept p ih =>
    rw [List.forall_mem_append, List.forall_mem_singleton] at hk
    have hl : kept.flatten.length = kept.length * 8 := (length_flatten hk.1).trans (Nat.mul_comm _ _)
    have hs : slotBytes (kept ++ [p]) = fillSlot (slotBytes kept) kept.length p := by
      simp [slotBytes, List.zipIdx_append, List.foldl_append]
    rw [hs, ih hk.1, fillSlot_append hl, List.flatten_append, List.flatten_singleton, List.drop_replicate,
      List.length_append, List.length_singleton, Nat.mul_add, Nat.sub_add_eq]

theorem length_slotBytes (hk : ∀ p ∈ kept, p.length = 8) (hc : kept.length ≤ 256) :
    (slotBytes kept).length = 2048 := by
  rw [slotBytes_eq hk, List.length_append, List.length_replicate, length_flatten hk]
  omega

theorem slotBytes_holdsAt (hk : ∀ p ∈ kept, p.length = 8) :
    (∀ i p, kept[i]? = some p → (slotBytes kept).HoldsAt (8 * i) p) ∧
      (slotBytes kept).HoldsAt (8 * kept.length) (List.replicate (2048 - 8 * kept.length) 0) := by
  have hs := Bytes.holdsAt_self (slotBytes kept)
  rw [slotBytes_eq hk] at hs ⊢
  refine ⟨fun i p hp => ?_, ?_⟩
  · have hpa := hs.left
    rw [← List.flatMap_id] at hpa
    have hr := hpa.record (f := id) hk hp
    rwa [Nat.zero_add, List.flatMap_id] at hr
  · have hre := hs.right
    rwa [Nat.zero_add, length_flatten hk] at hre

theorem leastAt_nearestSlot {p : Bytes} (h : kept ≠ []) : LeastAt (distance p) kept (nearestSlot kept p) := by
  obtain ⟨e, hf, hl⟩ := exists_least?_zipIdx (distance p) h
  have hs : nearestSlot kept p = e.2 := by
    unfold nearestSlot
    exact congrArg (fun found : Option ((Bytes × Nat) × Nat) => (found.map fun e => e.1.2).getD 0) hf
  exact hs ▸ hl

/-! ### The characters that are kept -/

theorem pairwise_byFrequency (counts : Table Bytes Nat) :
    (counts.mergeSort fun a b => decide (b.2 ≤ a.2)).Pairwise fun a b => b.2 ≤ a.2 := by
  have hs : (counts.mergeSort fun a b => decide (b.2 ≤ a.2)).Pairwise fun a b => decide (b.2 ≤ a.2) = true := by
    apply List.pairwise_mergeSort
    · intro a b c hab hbc
      rw [decide_eq_true_eq] at hab hbc ⊢
      exact Nat.le_trans hbc hab
    · intro a b
      rw [Bool.or_eq_true, decide_eq_true_eq, decide_eq_true_eq]
      exact Nat.le_total b.2 a.2
  exact hs.imp of_decide_eq_true

theorem byFrequency_perm (counts : Table Bytes Nat) : (byFrequency counts).Perm counts.keys :=
  (List.mergeSort_perm counts _).map _

/-- What is not among the first characters by falling counts is met no more often than these. -/
theorem count_le_of_byFrequency {n : Nat} {p q : Bytes} (hp : p ∈ (tally patterns).keys)
    (hdr : p ∉ (byFrequency (tally patterns)).take n) (hq : q ∈ (byFrequency (tally patterns)).take n) :
    patterns.count p ≤ patterns.count q := by
  have hpe := List.mergeSort_perm (tally patterns) fun a b => decide (b.2 ≤ a.2)
  have hs := pairwise_byFrequency (tally patterns)
  have hp : p ∈ (byFrequency (tally patterns)).drop n := by
    have hmem := (byFrequency_perm (tally patterns)).mem_iff.mpr hp
    rw [← List.take_append_drop n (byFrequency (tally patterns)), List.mem_append] at hmem
    exact hmem.resolve_left hdr
  rw [byFrequency, ← List.map_take, List.mem_map] at hq
  rw [byFrequency, ← List.map_drop, List.mem_map] at hp
  obtain ⟨e, he, rfl⟩ := hq
  obtain ⟨f, hf, rfl⟩ := hp
  rw [← List.take_append_drop n (List.mergeSort _ _), List.pairwise_append] at hs
  have hle := hs.2.2 e he f hf
  rwa [count_of_mem_tally (hpe.mem_iff.mp (List.mem_of_mem_take he)),
    count_of_mem_tally (hpe.mem_iff.mp (List.mem_of_mem_drop hf))] at hle

/-! ### Building -/

/-- A charset for a list of characters: those that are kept stand in their slots, every other one is shown by the first
of the kept ones that differ from it in the fewest bits, and no more is dropped than there is no room for. -/
structure Fits (c : Charset) (patterns : List Bytes) : Prop where
  nodup : c.kept.Nodup
  count : c.kept.length ≤ 256
  size : c.bytes.length = 2048
  keys : c.slots.keys.Nodup ∧ ∀ p, p ∈ c.slots.keys ↔ p ∈ patterns
  filled : ∀ i p, c.kept[i]? = some p → c.bytes.HoldsAt (8 * i) p
  unused : c.bytes.HoldsAt (8 * c.kept.length) (List.replicate (2048 - 8 * c.kept.length) 0)
  own : ∀ i p, c.kept[i]? = some p → c.slots.get? p = some i
  nearest : ∀ p ∈ patterns, p ∉ c.kept →
    ∃ i, c.slots.get? p = some i ∧ LeastAt (fun q => hammingDist (bits p) (bits q)) c.kept i
  few : patterns.eraseDups.length ≤ 256 → c.kept = patterns.eraseDups
  many : 256 < patterns.eraseDups.length → c.kept.length = 256 ∧
    ∀ p ∈ patterns, p ∉ c.kept → ∀ q ∈ c.kept, patterns.count p ≤ patterns.count q

theorem mem_keys_tally {p : Bytes} : p ∈ (tally patterns).keys ↔ p ∈ patterns := by
  rw [keys_tally, List.mem_eraseDups]

theorem keys_zipIdx (l : List Bytes) : Table.keys (l.zipIdx : Table Bytes Nat) = l :=
  List.zipIdx_map_fst 0 l

theorem mem_zipIdx_of_getElem? {i : Nat} {p : Bytes} (h : kept[i]? = some p) : (p, i) ∈ kept.zipIdx :=
  List.mem_zipIdx_iff_getElem?.mpr h

theorem length_eraseDups (patterns : List Bytes) : patterns.eraseDups.length = (tally patterns).length := by
  rw [← keys_tally, Table.keys, List.length_map]

namespace Fits

variable {c : Charset}

theorem slot (h : c.Fits patterns) (height : ∀ p ∈ patterns, p.length = 8) {p : Bytes} (hp : p ∈ patterns) :
    ∃ i q, c.slots.get? p = some i ∧ c.kept[i]? = some q ∧ q.length = 8 := by
  obtain ⟨i, q, hs, hk⟩ : ∃ i q, c.slots.get? p = some i ∧ c.kept[i]? = some q := by
    by_cases hmem : p ∈ c.kept
    · obtain ⟨i, hi⟩ := List.mem_iff_getElem?.mp hmem
      exact ⟨i, p, h.own i p hi, hi⟩
    · obtain ⟨i, hi, q, hq, -⟩ := h.nearest p hp hmem
      exact ⟨i, q, hi, hq⟩
  have hq : q ∈ patterns := (h.keys.2 q).mp (List.mem_map_of_mem (Table.mem_of_get? (h.own i q hk)))
  exact ⟨i, q, hs, hk, height q hq⟩

theorem slot_lt (h : c.Fits patterns) (height : ∀ p ∈ patterns, p.length = 8) (p : Bytes) : c.slots.getD p 0 < 256 := by
  by_cases hp : p ∈ patterns
  · obtain ⟨i, q, hs, hk, -⟩ := h.slot height hp
    have hlt := (List.getElem?_eq_some_iff.mp hk).1
    rw [Table.getD, hs, Option.getD_some]
    exact Nat.lt_of_lt_of_le hlt h.count
  · have hn : c.slots.get? p = none := Table.get?_eq_none_iff.mpr fun hmem => hp ((h.keys.2 p).mp hmem)
    rw [Table.getD, hn, Option.getD_none]
    decide

end Fits

theorem fits_all (h : ∀ p ∈ patterns, p.length = 8) (hfew : (tally patterns).length ≤ 256) :
    Fits ⟨(tally patterns).keys, slotBytes (tally patterns).keys, (tally patterns).keys.zipIdx⟩ patterns := by
  have hk : ∀ p ∈ (tally patterns).keys, p.length = 8 := fun p hp => h p (mem_keys_tally.mp hp)
  have hn := nodup_keys_tally patterns
  have hc : (tally patterns).keys.length ≤ 256 := by rwa [Table.keys, List.length_map]
  obtain ⟨hf, hu⟩ := slotBytes_holdsAt hk
  refine ⟨hn, hc, length_slotBytes hk hc, ?_, hf, hu, fun i p hp => ?_, fun p hp hdr => ?_,
    fun _ => keys_tally patterns, fun hm => ?_⟩
  · rw [keys_zipIdx]
    exact ⟨hn, fun p => mem_keys_tally⟩
  · refine Table.get?_of_mem ?_ (mem_zipIdx_of_getElem? hp)
    rwa [keys_zipIdx]
  · exact absurd (mem_keys_tally.mpr hp) hdr
  · rw [length_eraseDups] at hm
    omega

theorem fits_commonest (h : ∀ p ∈ patterns, p.length = 8) (hm : 256 < (tally patterns).length)
    (hk : (byFrequency (tally patterns)).take 256 = kept) :
    Fits ⟨kept, slotBytes kept, kept.zipIdx ++
      ((tally patterns).keys.filter (! kept.contains ·)).map fun p => (p, nearestSlot kept p)⟩ patterns := by
  have hpe := byFrequency_perm (tally patterns)
  have hmem : ∀ p ∈ kept, p ∈ patterns := by
    rw [← hk]
    exact fun p hp => mem_keys_tally.mp (hpe.mem_iff.mp (List.mem_of_mem_take hp))
  have height : ∀ p ∈ kept, p.length = 8 := fun p hp => h p (hmem p hp)
  have hn : kept.Nodup := by
    rw [← hk]
    exact (hpe.nodup_iff.mpr (nodup_keys_tally patterns)).sublist (List.take_sublist _ _)
  have hc : kept.length = 256 := by
    rw [← hk, List.length_take, hpe.length_eq, Table.keys, List.length_map]
    omega
  obtain ⟨dropped, hdr⟩ : ∃ dropped, (tally patterns).keys.filter (! kept.contains ·) = dropped := ⟨_, rfl⟩
  have hmem_dropped : ∀ p, p ∈ dropped ↔ p ∈ patterns ∧ p ∉ kept := by
    intro p
    rw [← hdr, List.mem_filter, mem_keys_tally]
    simp
  have hke : Table.keys (kept.zipIdx ++ dropped.map fun p => (p, nearestSlot kept p)) = kept ++ dropped := by
    rw [Table.keys, List.map_append, List.zipIdx_map_fst, List.map_map]
    simp only [Function.comp_def, List.map_id']
  have hnodup_keys : (kept ++ dropped).Nodup := by
    refine List.nodup_append.mpr ⟨hn, ?_, fun p hp q hq he => ((hmem_dropped q).mp hq).2 (he ▸ hp)⟩
    rw [← hdr]
    exact (nodup_keys_tally patterns).filter _
  obtain ⟨hf, hu⟩ := slotBytes_holdsAt height
  rw [hdr]
  refine ⟨hn, hc.le, length_slotBytes height hc.le, ?_, hf, hu, fun i p hp => ?_, fun p hp hnew => ?_,
    fun hfew => ?_, fun _ => ⟨hc, fun p hp hnew q hq => ?_⟩⟩
  · rw [hke]
    refine ⟨hnodup_keys, fun p => ?_⟩
    rw [List.mem_append, hmem_dropped]
    exact ⟨fun hp => hp.elim (hmem p) And.left, fun hp => (Decidable.em (p ∈ kept)).imp_right fun hnew => ⟨hp, hnew⟩⟩
  · refine Table.get?_of_mem (hke ▸ hnodup_keys) (List.mem_append_left _ ?_)
    exact mem_zipIdx_of_getElem? hp
  · have hs : (p, nearestSlot kept p) ∈ dropped.map fun p => (p, nearestSlot kept p) :=
      List.mem_map_of_mem ((hmem_dropped p).mpr ⟨hp, hnew⟩)
    refine ⟨nearestSlot kept p, Table.get?_of_mem (hke ▸ hnodup_keys) (List.mem_append_right _ hs), ?_⟩
    have hne : kept ≠ [] := by
      rintro rfl
      cases hc
    exact (leastAt_nearestSlot hne).congr fun q hq => distance_eq_hammingDist (h p hp) (height q hq)
  · rw [length_eraseDups] at hfew
    omega
  · subst hk
    exact count_le_of_byFrequency (mem_keys_tally.mpr hp) hnew hq

theorem build_of_few (hfew : (tally patterns).length ≤ 256) :
    build patterns = some ⟨(tally patterns).keys, slotBytes (tally patterns).keys, (tally patterns).keys.zipIdx⟩ := by
  unfold build
  dsimp only
  rw [if_pos (show (tally patterns).length ≤ slotCount from hfew)]

theorem build_of_many (h : ∀ p ∈ patterns, p.length = 8) (hm : 256 < (tally patterns).length)
    (hk : (byFrequency (tally patterns)).take 256 = kept) :
    build patterns = some ⟨kept, slotBytes kept, kept.zipIdx ++
      ((tally patterns).keys.filter (! kept.contains ·)).map fun p => (p, nearestSlot kept p)⟩ := by
  have hl : ¬((tally patterns).keys.any (·.length < 8) = true) := by
    rw [List.any_eq_true]
    rintro ⟨p, hp, hs⟩
    have hle := h p (mem_keys_tally.mp hp)
    have hs := of_decide_eq_true hs
    omega
  unfold build
  dsimp only
  rw [if_neg (show ¬(tally patterns).length ≤ slotCount from Nat.not_le_of_lt hm), if_neg hl, ← hk]
  rfl

/-- A charset is built for every list of characters of eight rows, and it loses as little as possible. -/
theorem build_fits (h : ∀ p ∈ patterns, p.length = 8) : ∃ c, build patterns = some c ∧ c.Fits patterns := by
  by_cases hfew : (tally patterns).length ≤ 256
  · exact ⟨_, build_of_few hfew, fits_all h hfew⟩
  · have hmany := Nat.lt_of_not_le hfew
    exact ⟨_, build_of_many h hmany rfl, fits_commonest h hmany rfl⟩

/-- The number of a character as its first two rows. -/
def numberedPattern (n : Nat) : Bytes :=
  [UInt8.ofNat n, UInt8.ofNat (n / 256), 0, 0, 0, 0, 0, 0]

/-- One character more than there are slots, and the first of them twice. -/
def crowd : List Bytes :=
  (List.range 257).map numberedPattern ++ [numberedPattern 0]

theorem length_le_eraseDups_crowd : 257 ≤ crowd.eraseDups.length := by
  have hno : ((List.range 257).map numberedPattern).Nodup := by
    refine List.nodup_range.map_on fun n hn m hm he => ?_
    rw [List.mem_range] at hn hm
    simp only [numberedPattern, List.cons.injEq, ← UInt8.toNat_inj, UInt8.toNat_ofNat'] at he
    omega
  have hsub : (List.range 257).map numberedPattern ⊆ crowd.eraseDups := by
    intro p hp
    rw [List.mem_eraseDups]
    exact List.mem_append_left _ hp
  simpa using (List.subperm_of_subset hno hsub).length_le

theorem build_fits_crowd : (∀ p ∈ crowd, p.length = 8) ∧ 256 < crowd.eraseDups.length ∧
    ∃ c, build crowd = some c ∧ c.Fits crowd ∧ c.kept.length = 256 := by
  have hcrowd : ∀ p ∈ crowd, p.length = 8 := by
    rw [crowd, List.forall_mem_append, List.forall_mem_map, List.forall_mem_singleton]
    exact ⟨fun _ _ => rfl, rfl⟩
  have hmany : 256 < crowd.eraseDups.length := length_le_eraseDups_crowd
  obtain ⟨c, hc, hfits⟩ := build_fits hcrowd
  exact ⟨hcrowd, hmany, c, hc, hfits, (hfits.many hmany).1⟩

end Charset

end EscapeRoom
