import Mathlib.Data.List.Induction
import Mathlib.Data.List.Nodup
import EscapeRoom.Level.Script

/-!
# Keys and numbers of names

Putting entries into a table keeps its keys different. Names are numbered by their positions; where a
name is repeated its last position counts, and where all names are different there is only one.
-/

namespace EscapeRoom

variable {i : Nat} {name : String} {names : List String}

namespace Table

variable {κ ν : Type} [DecidableEq κ] {k : κ} {t : Table κ ν} {v : ν}

omit [DecidableEq κ] in
@[simp] theorem keys_cons (e : κ × ν) (t : Table κ ν) : keys (e :: t) = e.1 :: keys t := rfl

theorem get?_eq_none_iff : t.get? k = none ↔ k ∉ t.keys := by
  induction t with
  | nil => simp [keys]
  | cons e t ih =>
    rw [get?_cons, keys_cons, List.mem_cons, not_or]
    by_cases h : e.1 = k
    · simp [h]
    · simp [h, ih, Ne.symm h]

theorem has_eq_false_iff : t.has k = false ↔ k ∉ t.keys := by
  rw [← get?_eq_none_iff, has, Option.isSome_eq_false_iff, Option.isNone_iff_eq_none]

theorem mem_of_get? (h : t.get? k = some v) : (k, v) ∈ t := by
  induction t with
  | nil => simp at h
  | cons e t ih =>
    rw [get?_cons] at h
    split at h
    · rename_i he
      rw [Option.some.injEq] at h
      subst he h
      exact List.mem_cons_self
    · exact List.mem_cons_of_mem e (ih h)

omit [DecidableEq κ] in
theorem getElem?_keys {i : Nat} (h : t[i]? = some (k, v)) : t.keys[i]? = some k := by
  rw [keys, List.getElem?_map, h, Option.map_some]

omit [DecidableEq κ] in
theorem getElem?_values {i : Nat} (h : t[i]? = some (k, v)) : t.values[i]? = some v := by
  rw [values, List.getElem?_map, h, Option.map_some]

omit [DecidableEq κ] in
theorem mem_values (h : (k, v) ∈ t) : v ∈ t.values :=
  List.mem_map.mpr ⟨_, h, rfl⟩

theorem get?_of_mem (hn : t.keys.Nodup) (h : (k, v) ∈ t) : t.get? k = some v := by
  induction t with
  | nil => simp at h
  | cons e t ih =>
    rw [keys_cons, List.nodup_cons] at hn
    rw [get?_cons]
    rcases List.mem_cons.mp h with rfl | h
    · simp
    · have hk : k ∈ keys t := List.mem_map.mpr ⟨(k, v), h, rfl⟩
      have hne : e.1 ≠ k := fun he => hn.1 (he ▸ hk)
      rw [if_neg hne]
      exact ih hn.2 h

theorem mem_keys_put {k j : κ} : j ∈ (t.put k v).keys ↔ j = k ∨ j ∈ t.keys := by
  have h := not_congr (get?_eq_none_iff (t := t.put k v) (k := j))
  rw [not_not, get?_put] at h
  rw [← h]
  by_cases hk : k = j
  · simp [hk]
  · simp [hk, Ne.symm hk, get?_eq_none_iff]

theorem keys_put (t : Table κ ν) (k : κ) (v : ν) :
    (t.put k v).keys = if k ∈ t.keys then t.keys else t.keys ++ [k] := by
  induction t with
  | nil => simp [put, keys]
  | cons e t ih =>
    rw [put]
    by_cases he : e.1 = k
    · simp [he]
    · rw [if_neg he, keys_cons, keys_cons, ih]
      by_cases hk : k ∈ keys t
      · simp [hk]
      · simp [hk, Ne.symm he]

theorem nodup_keys_put (h : t.keys.Nodup) (k : κ) (v : ν) : (t.put k v).keys.Nodup := by
  induction t with
  | nil => simp [put, keys]
  | cons e t ih =>
    rw [keys_cons, List.nodup_cons] at h
    rw [put]
    split
    · rename_i he
      rw [keys_cons, List.nodup_cons]
      exact he ▸ h
    · rename_i he
      rw [keys_cons, List.nodup_cons, mem_keys_put, not_or]
      exact ⟨⟨he, h.1⟩, ih h.2⟩

/-- What holds of the old entries and of a new one holds of all entries once it is put in. -/
theorem forall_mem_put {P : κ × ν → Prop} (h : ∀ e ∈ t, P e) (hv : P (k, v)) : ∀ e ∈ t.put k v, P e := by
  induction t with
  | nil => simpa [put] using hv
  | cons e t ih =>
    rw [List.forall_mem_cons] at h
    rw [put]
    split
    · exact List.forall_mem_cons.mpr ⟨hv, h.2⟩
    · exact List.forall_mem_cons.mpr ⟨h.1, ih h.2⟩

theorem forall_mem_values_put {P : ν → Prop} (h : ∀ v ∈ t.values, P v) (hv : P v) : ∀ w ∈ (t.put k v).values, P w := by
  rw [values, List.forall_mem_map] at h ⊢
  exact forall_mem_put h hv

end Table

def Numbered (names : List String) (name : String) (i : Nat) : Prop :=
  names[i]? = some name ∧ ∀ j, i < j → names[j]? ≠ some name

theorem Numbered.lt_length (h : Numbered names name i) : i < names.length :=
  (List.getElem?_eq_some_iff.mp h.1).1

theorem numbered_iff_of_nodup (hn : names.Nodup) : Numbered names name i ↔ names[i]? = some name := by
  refine ⟨And.left, fun h => ⟨h, fun j hj hj' => ?_⟩⟩
  obtain ⟨hi, rfl⟩ := List.getElem?_eq_some_iff.mp h
  obtain ⟨hj, he⟩ := List.getElem?_eq_some_iff.mp hj'
  have := (List.Nodup.getElem_inj_iff hn).mp he
  omega

theorem Numbered.unique {i j : Nat} (hi : Numbered names name i) (hj : Numbered names name j) : i = j := by
  rcases Nat.lt_trichotomy i j with h | h | h
  · exact absurd hj.1 (hi.2 j h)
  · exact h
  · exact absurd hi.1 (hj.2 i h)

theorem numbered_concat (names : List String) (last name : String) (i : Nat) :
    Numbered (names ++ [last]) name i ↔
      if last = name then i = names.length else Numbered names name i := by
  have hl : (names ++ [last])[names.length]? = some last := by simp
  split
  · rename_i he
    subst he
    constructor
    · rintro ⟨hi, ha⟩
      have hlt : i < (names ++ [last]).length := (List.getElem?_eq_some_iff.mp hi).1
      rw [List.length_append, List.length_singleton] at hlt
      by_contra hne
      exact ha names.length (by omega) hl
    · rintro rfl
      refine ⟨hl, fun j hj hj' => ?_⟩
      have hlt : j < (names ++ [last]).length := (List.getElem?_eq_some_iff.mp hj').1
      rw [List.length_append, List.length_singleton] at hlt
      omega
  · rename_i hne
    -- Behind the last position nothing stands, and at it another name does.
    have hs : ∀ j : Nat, (names ++ [last])[j]? = some name ↔ names[j]? = some name := by
      intro j
      rcases Nat.lt_trichotomy j names.length with h | h | h
      · rw [List.getElem?_append_left h]
      · subst h
        simp [hne]
      · rw [List.getElem?_eq_none (by simp; omega), List.getElem?_eq_none (by omega)]
    simp only [Numbered, ne_eq, hs]

theorem Ids.number_concat (names : List String) (last : String) :
    Ids.number (names ++ [last]) = (Ids.number names).put last names.length := by
  simp [Ids.number, Table.ofEntries, List.zipIdx_append, List.foldl_append]

theorem Ids.get?_number : (Ids.number names).get? name = some i ↔ Numbered names name i := by
  induction names using List.reverseRecOn generalizing i with
  | nil => simp [Ids.number, Table.ofEntries, Numbered]
  | append_singleton names last ih =>
    rw [number_concat, Table.get?_put, numbered_concat]
    split
    · simp [eq_comm]
    · exact ih

end EscapeRoom
