import EscapeRoom.Assets.Cache
import EscapeRoom.Proofs.Numbering
import EscapeRoom.Proofs.Sessions

/-!
# Fresh inputs

An input is fresh if the cache has the present times of it and of all its outputs. A fresh input is not
stale, and it becomes stale exactly when one of these times changes. Recording an input makes it fresh and
leaves what the cache has about others.
-/

namespace EscapeRoom.Assets

open Number

variable {t t' : FileTree} {cache cache' v : Json} {input path : String} {outputs : List String} {a b : Double}

theorem eq_of_isTime {n : Int} (h : isTime n a = true) : a = .ofInt n := by
  rw [isTime, Bool.and_eq_true, decide_eq_true_eq] at h
  exact h.1

theorem sameTime_unique (ha : sameTime v a = true) (hb : sameTime v b = true) : a = b := by
  cases v with
  | int n => exact (eq_of_isTime ha).trans (eq_of_isTime hb).symm
  | bool c => exact (eq_of_isTime ha).trans (eq_of_isTime hb).symm
  | real x => exact (of_decide_eq_true ha).symm.trans (of_decide_eq_true hb)
  | null => cases ha
  | str s => cases ha
  | arr vs => cases ha
  | obj members => cases ha

/-- There is something at a path, with a time other than zero. -/
def HasTime (t : FileTree) (path : String) : Prop :=
  ∃ time, timeOf t path = .ok time ∧ time.isZero = false

theorem hasTime_iff : HasTime t path ↔ (timeOf t path).toOption.any (! ·.isZero) = true := by
  unfold HasTime
  cases timeOf t path with
  | error e => simp [Except.toOption]
  | ok time => simp [Except.toOption]

instance (t : FileTree) (path : String) : Decidable (HasTime t path) :=
  decidable_of_iff _ hasTime_iff.symm

theorem HasTime.congr (h : HasTime t path) (ht : timeOf t' path = timeOf t path) : HasTime t' path := by
  obtain ⟨time, hti, hz⟩ := h
  exact ⟨time, ht.trans hti, hz⟩

/-- A value of the cache is the present time of a path. -/
def Notes (v : Json) (t : FileTree) (path : String) : Prop :=
  ∃ time, timeOf t path = .ok time ∧ time.isZero = false ∧ sameTime v time = true

/-- The cache has the present times of an input and its outputs. -/
def Fresh (t : FileTree) (cache : Json) (input : String) (outputs : List String) : Prop :=
  ∃ entry v cached, member cache input (.obj []) = .ok entry ∧ member entry "input_mtime" .null = .ok v ∧
    member entry "outputs" (.obj []) = .ok cached ∧ Notes v t input ∧
    ∀ p ∈ outputs, ∃ w, member cached p .null = .ok w ∧ Notes w t p

theorem Notes.congr (h : Notes v t path) (ht : timeOf t' path = timeOf t path) : Notes v t' path := by
  obtain ⟨time, hti, hr⟩ := h
  exact ⟨time, ht.trans hti, hr⟩

/-- Whether an input is fresh depends on its times and on its part of the cache. -/
theorem Fresh.congr (h : Fresh t cache input outputs) (hi : timeOf t' input = timeOf t input)
    (ho : ∀ p ∈ outputs, timeOf t' p = timeOf t p)
    (hm : member cache' input (.obj []) = member cache input (.obj [])) : Fresh t' cache' input outputs := by
  obtain ⟨entry, v, cached, he, hv, hc, hn, hno⟩ := h
  refine ⟨entry, v, cached, hm.trans he, hv, hc, hn.congr hi, ?_⟩
  intro p hp
  obtain ⟨w, hw, hn⟩ := hno p hp
  exact ⟨w, hw, hn.congr (ho p hp)⟩

theorem Fresh.hasTime (h : Fresh t cache input outputs) : ∀ p ∈ outputs, HasTime t p := by
  obtain ⟨entry, v, cached, -, -, -, -, hn⟩ := h
  intro p hp
  obtain ⟨w, -, time, ht, hz, -⟩ := hn p hp
  exact ⟨time, ht, hz⟩

theorem anyM_eq_ok {ε α : Type} {f : α → Except ε Bool} {g : α → Bool} {xs : List α}
    (h : ∀ x ∈ xs, f x = .ok (g x)) : xs.anyM f = .ok (xs.any g) := by
  induction xs with
  | nil => rfl
  | cons x xs ih =>
    rw [List.forall_mem_cons] at h
    rw [List.anyM, h.1, List.any_cons]
    cases g x with
    | true => rfl
    | false => exact ih h.2

theorem eq_false_of_anyM {ε α : Type} {f : α → Except ε Bool} {xs : List α} (h : xs.anyM f = .ok false) :
    ∀ x ∈ xs, f x = .ok false := by
  induction xs with
  | nil => simp
  | cons x xs ih =>
    rw [List.anyM, except_bind_eq_ok] at h
    obtain ⟨found, hf, h⟩ := h
    cases found with
    | true => cases h
    | false => exact List.forall_mem_cons.mpr ⟨hf, ih h⟩

theorem fresh_of_isStale (hi : HasTime t input) (h : isStale t cache input outputs = .ok false) :
    Fresh t cache input outputs := by
  obtain ⟨time, ht, hz⟩ := hi
  obtain ⟨time', ht', h⟩ := except_bind_eq_ok.mp h
  obtain rfl := Except.ok.inj (ht.symm.trans ht')
  rw [if_neg (by simp [hz])] at h
  obtain ⟨entry, he, h⟩ := except_bind_eq_ok.mp h
  obtain ⟨v, hv, h⟩ := except_bind_eq_ok.mp h
  split at h
  · cases h
  · rename_i hs
    obtain ⟨missing, hm, h⟩ := except_bind_eq_ok.mp h
    split at h
    · cases h
    · rename_i hth
      obtain rfl : missing = false := by simpa using hth
      obtain ⟨cached, hc, h⟩ := except_bind_eq_ok.mp h
      refine ⟨entry, v, cached, he, hv, hc, ⟨time, ht, hz, by simpa using hs⟩, ?_⟩
      intro p hp
      obtain ⟨time', ht', hz'⟩ := except_bind_eq_ok.mp (eq_false_of_anyM hm p hp)
      obtain ⟨w, hw, h⟩ := except_bind_eq_ok.mp (eq_false_of_anyM h p hp)
      obtain ⟨time'', ht'', h⟩ := except_bind_eq_ok.mp h
      obtain rfl := Except.ok.inj (ht'.symm.trans ht'')
      have hz' : time'.isZero = false := Except.ok.inj hz'
      have hs' : (!sameTime w time') = false := Except.ok.inj h
      exact ⟨w, hw, time', ht', hz', by simpa using hs'⟩

theorem exists_members_of_isStale {stale : Bool} (hi : HasTime t input)
    (h : isStale t cache input outputs = .ok stale) : ∃ members, cache = .obj members := by
  obtain ⟨time, ht, hz⟩ := hi
  obtain ⟨time', ht', h⟩ := except_bind_eq_ok.mp h
  obtain rfl := Except.ok.inj (ht.symm.trans ht')
  rw [if_neg (by simp [hz])] at h
  obtain ⟨entry, he, -⟩ := except_bind_eq_ok.mp h
  cases cache with
  | obj members => exact ⟨members, rfl⟩
  | _ => cases he

/-- An input or one of its outputs has another time than before. -/
def Changed (t t' : FileTree) (input : String) (outputs : List String) : Prop :=
  timeOf t' input ≠ timeOf t input ∨ ∃ p ∈ outputs, timeOf t' p ≠ timeOf t p

instance (t t' : FileTree) (input : String) (outputs : List String) : Decidable (Changed t t' input outputs) :=
  inferInstanceAs (Decidable (_ ∨ _))

theorem Notes.sameTime_eq (h : Notes v t path) (ha : timeOf t' path = .ok a) :
    sameTime v a = decide (timeOf t' path = timeOf t path) := by
  obtain ⟨time, ht, -, hs⟩ := h
  rw [ha, ht]
  by_cases heq : a = time
  · simp [heq, hs]
  · have ho : sameTime v a = false := by
      cases h : sameTime v a with
      | false => rfl
      | true => exact absurd (sameTime_unique h hs) heq
    simp [heq, ho]

def timeAt (t : FileTree) (path : String) : Double :=
  (timeOf t path).toOption.getD .undefined

theorem timeOf_eq (h : timeOf t path = .ok a) : timeOf t path = .ok (timeAt t path) := by
  rw [timeAt, h]
  rfl

theorem Fresh.isStale_eq (h : Fresh t cache input outputs) (hi : HasTime t' input)
    (ho : ∀ p ∈ outputs, ∃ time, timeOf t' p = .ok time) :
    isStale t' cache input outputs = .ok (decide (Changed t t' input outputs)) := by
  obtain ⟨entry, v, cached, he, hv, hc, hn, hno⟩ := h
  obtain ⟨time, ht, hz⟩ := hi
  have hti : ∀ p ∈ outputs, timeOf t' p = .ok (timeAt t' p) := by
    intro p hp
    obtain ⟨time, ht⟩ := ho p hp
    exact timeOf_eq ht
  have hm : outputs.anyM (fun p => do return (← timeOf t' p).isZero : String → Except Crash Bool) =
      .ok (outputs.any fun p => (timeAt t' p).isZero) := by
    apply anyM_eq_ok
    intro p hp
    rw [hti p hp]
    rfl
  have hdi : outputs.anyM (fun p => do
        return !sameTime (← member cached p .null) (← timeOf t' p) : String → Except Crash Bool) =
      .ok (outputs.any fun p => decide (timeOf t' p ≠ timeOf t p)) := by
    apply anyM_eq_ok
    intro p hp
    obtain ⟨w, hw, hn⟩ := hno p hp
    rw [hw, hti p hp]
    simp only [except_ok_bind, hn.sameTime_eq (hti p hp), hti p hp, decide_not]
    rfl
  unfold isStale
  simp only [ht, except_ok_bind, hz, he, hv, hn.sameTime_eq ht, hm, hc, hdi,
    Bool.false_eq_true, if_false]
  rw [← ht]
  by_cases hs : timeOf t' input = timeOf t input
  · rw [if_neg (by simp [hs])]
    by_cases hg : (outputs.any fun p => (timeAt t' p).isZero) = true
    · -- An output that is gone had a time.
      obtain ⟨p, hp, hg'⟩ := List.any_eq_true.mp hg
      obtain ⟨w, -, time', ht', hz', -⟩ := hno p hp
      have hch : Changed t t' input outputs := by
        refine .inr ⟨p, hp, fun heq => ?_⟩
        rw [hti p hp, ht', Except.ok.injEq] at heq
        rw [heq, hz'] at hg'
        cases hg'
      rw [if_pos hg, decide_eq_true hch]
      rfl
    · rw [if_neg hg, Except.ok.injEq, Bool.eq_iff_iff]
      simp [Changed, hs]
  · have hch : Changed t t' input outputs := .inl hs
    rw [if_pos (by simp [hs]), decide_eq_true hch]
    rfl

theorem anyM_congr {ε α : Type} {f g : α → Except ε Bool} {xs : List α} (h : ∀ x ∈ xs, f x = g x) :
    xs.anyM f = xs.anyM g := by
  induction xs with
  | nil => rfl
  | cons x xs ih =>
    rw [List.forall_mem_cons] at h
    rw [List.anyM, List.anyM, h.1, ih h.2]

/-- Whether an input is stale depends on its times and on its part of the cache. -/
theorem isStale_congr (hi : timeOf t' input = timeOf t input)
    (ho : ∀ p ∈ outputs, timeOf t' p = timeOf t p)
    (hm : member cache' input (.obj []) = member cache input (.obj [])) :
    isStale t' cache' input outputs = isStale t cache input outputs := by
  have hmi : outputs.anyM (fun p => do return (← timeOf t' p).isZero : String → Except Crash Bool) =
      outputs.anyM fun p => do return (← timeOf t p).isZero := by
    apply anyM_congr
    intro p hp
    rw [ho p hp]
  have hdi : ∀ cached, outputs.anyM (fun p => do
        return !sameTime (← member cached p .null) (← timeOf t' p) : String → Except Crash Bool) =
      outputs.anyM fun p => do return !sameTime (← member cached p .null) (← timeOf t p) := by
    intro cached
    apply anyM_congr
    intro p hp
    rw [ho p hp]
  unfold isStale
  simp only [hi, hm, hmi, hdi]

theorem mapM_eq_ok {ε α β : Type} {f : α → Except ε β} {g : α → β} {xs : List α}
    (h : ∀ x ∈ xs, f x = .ok (g x)) : xs.mapM f = .ok (xs.map g) := by
  induction xs with
  | nil => rfl
  | cons x xs ih =>
    rw [List.forall_mem_cons] at h
    rw [List.mapM_cons, h.1, except_ok_bind, ih h.2]
    rfl

theorem get?_ofEntries_map {ν : Type} {f : String → ν} {keys : List String} {k : String} (h : k ∈ keys) :
    Table.get? (Table.ofEntries (keys.map fun key => (key, f key))) k = some (f k) := by
  suffices hs : ∀ t : Table String ν, k ∈ keys ∨ Table.get? t k = some (f k) →
      Table.get? ((keys.map fun key => (key, f key)).foldl (fun t e => Table.put t e.1 e.2) t) k = some (f k) from
    hs [] (.inl h)
  clear h
  induction keys with
  | nil =>
    intro t h
    exact h.resolve_left (by simp)
  | cons key keys ih =>
    intro t h
    apply ih
    rw [List.mem_cons, or_assoc] at h
    by_cases hkey : key = k
    · right
      rw [Table.get?_put, if_pos hkey, hkey]
    · rcases h with rfl | h | h
      · exact absurd rfl hkey
      · exact .inl h
      · right
        rw [Table.get?_put, if_neg hkey, h]

/-- An input that is there with all its outputs can be recorded, and is fresh then. -/
theorem exists_record {members : List (String × Json)} (hi : HasTime t input)
    (ho : ∀ p ∈ outputs, HasTime t p) : ∃ cache', record t (.obj members) input outputs = .ok cache' ∧
      Fresh t cache' input outputs ∧
      ∀ key, key ≠ input → ∀ d, member cache' key d = member (.obj members) key d := by
  obtain ⟨time, ht, hz⟩ := hi
  have hti : outputs.mapM (fun p => do return (p, .real (← timeOf t p)) : String → Except Crash (String × Json)) =
      .ok (outputs.map fun p => (p, .real (timeAt t p))) := by
    apply mapM_eq_ok
    intro p hp
    obtain ⟨time, ht, -⟩ := ho p hp
    rw [timeOf_eq ht]
    rfl
  let times : Json := .obj (Table.ofEntries (outputs.map fun p => (p, .real (timeAt t p))))
  let entry : Json := .obj [("input_mtime", .real time), ("outputs", times)]
  refine ⟨.obj (Table.put members input entry), ?_, ⟨entry, .real time, times, ?_, rfl, rfl, ?_, ?_⟩, ?_⟩
  · simp only [record, entryJson, ht, hti, except_ok_bind]
    rfl
  · simp only [member, Table.getD, Table.get?_put, if_true, Option.getD_some]
  · exact ⟨time, ht, hz, decide_eq_true rfl⟩
  · intro p hp
    obtain ⟨time, ht, hz⟩ := ho p hp
    have hat : timeAt t p = time := by rw [timeAt, ht]; rfl
    refine ⟨.real (timeAt t p), ?_, time, ht, hz, decide_eq_true hat⟩
    simp only [times, member, Table.getD, get?_ofEntries_map hp, Option.getD_some]
  · intro key hkey d
    simp only [member, Table.getD, Table.get?_put, if_neg (Ne.symm hkey)]

end EscapeRoom.Assets
