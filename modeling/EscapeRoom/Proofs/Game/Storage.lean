import Mathlib.Data.Finset.Card
import EscapeRoom.Game.Loop
import EscapeRoom.Proofs.Game.Inventory
import EscapeRoom.Proofs.Game.Puzzle

/-!
# Flags, variables and items through a whole game

Flags are packed into bytes, and taking an item away moves the last one into its place. Whatever is done to them, in
any order and with any numbers, a flag of the level is set if it was set last, a variable has the value that was
stored last, and the items are a set of at most eight. The arrays that hold all this are never left.
-/

namespace EscapeRoom

/-- What can be done to flags, variables and items. -/
inductive Change where
  | setFlag (flag : UInt8)
  | clearFlag (flag : UInt8)
  | setVar (var value : UInt8)
  | addItem (item : UInt8)
  | removeItem (item : UInt8)
  | clearItems
  deriving Repr, DecidableEq

def Game.change (g : Game) : Change → Game
  | .setFlag i => { g with puzzle := g.puzzle.setFlag i }
  | .clearFlag i => { g with puzzle := g.puzzle.clearFlag i }
  | .setVar i v => { g with puzzle := g.puzzle.setVar i v }
  | .addItem x => { g with inventory := g.inventory.add x }
  | .removeItem x => { g with inventory := g.inventory.remove x }
  | .clearItems => { g with inventory := .empty }

/-- All flags clear, all variables zero and nothing carried. -/
def Game.initState (g : Game) : Game :=
  { g with inventory := .empty }.initPuzzle

namespace Change

def LastSets (changes : List Change) (i : UInt8) : Prop :=
  ∃ before after, changes = before ++ .setFlag i :: after ∧ .clearFlag i ∉ after

/-- The value that was stored last in a variable, or zero if there is none. -/
def LastStores (changes : List Change) (i v : UInt8) : Prop :=
  (∃ before after, changes = before ++ .setVar i v :: after ∧ ∀ w, .setVar i w ∉ after) ∨
    v = 0 ∧ ∀ w, .setVar i w ∉ changes

/-- The set of items after a change. A set of eight items is full. -/
def carry (held : Finset UInt8) : Change → Finset UInt8
  | .addItem x => if x ∈ held ∨ 8 ≤ held.card then held else insert x held
  | .removeItem x => held.erase x
  | .clearItems => ∅
  | .setFlag _ | .clearFlag _ | .setVar _ _ => held

variable {changes : List Change} {c : Change} {i v : UInt8}

theorem concat_eq_append_cons {α : Type} {xs before after : List α} {x y : α} (h : xs ++ [x] = before ++ y :: after) :
    after = [] ∧ x = y ∨ ∃ middle, after = middle ++ [x] ∧ xs = before ++ y :: middle := by
  rcases List.eq_nil_or_concat after with rfl | ⟨middle, z, rfl⟩
  · exact .inl ⟨rfl, (List.cons.inj (List.append_inj' h rfl).2).1⟩
  · rw [List.concat_eq_append, ← List.cons_append, ← List.append_assoc] at h
    obtain ⟨hxs, hx⟩ := List.append_inj' h rfl
    exact .inr ⟨middle, by rw [List.concat_eq_append, hx], hxs⟩

theorem lastSets_concat : LastSets (changes ++ [c]) i ↔ c = .setFlag i ∨ LastSets changes i ∧ c ≠ .clearFlag i := by
  constructor
  · rintro ⟨before, after, heq, hnot⟩
    rcases concat_eq_append_cons heq with ⟨rfl, hc⟩ | ⟨middle, rfl, hch⟩
    · exact .inl hc
    · rw [List.mem_append, not_or, List.mem_singleton] at hnot
      exact .inr ⟨⟨before, middle, hch, hnot.1⟩, Ne.symm hnot.2⟩
  · rintro (rfl | ⟨⟨before, after, rfl, hnot⟩, hc⟩)
    · exact ⟨changes, [], rfl, List.not_mem_nil⟩
    · refine ⟨before, after ++ [c], by simp, ?_⟩
      rw [List.mem_append, not_or, List.mem_singleton]
      exact ⟨hnot, Ne.symm hc⟩

theorem lastStores_concat_self {w : UInt8} : LastStores (changes ++ [.setVar i w]) i v ↔ v = w := by
  constructor
  · rintro (⟨before, after, heq, hnot⟩ | ⟨-, hnot⟩)
    · rcases concat_eq_append_cons heq with ⟨-, hc⟩ | ⟨middle, rfl, -⟩
      · exact (Change.setVar.inj hc).2.symm
      · exact absurd (List.mem_append_right _ (List.mem_singleton.mpr rfl)) (hnot w)
    · exact absurd (List.mem_append_right _ (List.mem_singleton.mpr rfl)) (hnot w)
  · rintro rfl
    exact .inl ⟨changes, [], rfl, fun _ => List.not_mem_nil⟩

theorem lastStores_concat_of_ne (hc : ∀ w, c ≠ .setVar i w) :
    LastStores (changes ++ [c]) i v ↔ LastStores changes i v := by
  have hl : ∀ cs : List Change, (∀ w, .setVar i w ∉ cs ++ [c]) ↔ ∀ w, .setVar i w ∉ cs := by
    intro cs
    refine forall_congr' fun w => not_congr ?_
    rw [List.mem_append, List.mem_singleton, or_iff_left (Ne.symm (hc w))]
  constructor
  · rintro (⟨before, after, heq, hnot⟩ | ⟨hv, hnot⟩)
    · rcases concat_eq_append_cons heq with ⟨-, hset⟩ | ⟨middle, rfl, hch⟩
      · exact absurd hset (hc v)
      · exact .inl ⟨before, middle, hch, (hl middle).mp hnot⟩
    · exact .inr ⟨hv, (hl changes).mp hnot⟩
  · rintro (⟨before, after, rfl, hnot⟩ | ⟨hv, hnot⟩)
    · exact .inl ⟨before, after ++ [c], by simp, (hl after).mpr hnot⟩
    · exact .inr ⟨hv, (hl changes).mpr hnot⟩

end Change

/-! One change at a time -/

namespace Puzzle

variable {p : Puzzle}

theorem flag_setFlag_iff (p : Puzzle) (i j : UInt8) :
    (p.setFlag j).flag i = true ↔ i < p.flagCount ∧ (i = j ∨ p.flag i = true) := by
  by_cases hj : j < p.flagCount
  · rw [flag_eq, flag_eq, (p.counts_setFlag j).1, bit_setFlag hj]
    simp only [Bool.and_eq_true, Bool.or_eq_true, decide_eq_true_eq, UInt8.toNat_inj]
    tauto
  · rw [setFlag, if_pos (UInt8.not_lt.mp hj)]
    constructor
    · intro h
      rw [flag_eq, Bool.and_eq_true, decide_eq_true_eq] at h
      exact ⟨h.1, .inr (by rw [flag_eq, decide_eq_true h.1, h.2]; rfl)⟩
    · rintro ⟨hi, rfl | h⟩
      · exact absurd hi hj
      · exact h

theorem flag_clearFlag_iff (p : Puzzle) (i j : UInt8) :
    (p.clearFlag j).flag i = true ↔ i ≠ j ∧ p.flag i = true := by
  by_cases hj : j < p.flagCount
  · rw [flag_eq, flag_eq, (p.counts_clearFlag j).1, bit_clearFlag hj]
    simp only [Bool.and_eq_true, Bool.not_eq_true', decide_eq_true_eq, decide_eq_false_iff_not, UInt8.toNat_inj]
    tauto
  · rw [clearFlag, if_pos (UInt8.not_lt.mp hj)]
    refine ⟨fun h => ⟨?_, h⟩, fun h => h.2⟩
    rintro rfl
    rw [flag_eq, decide_eq_false hj] at h
    cases h

theorem flag_setVar (p : Puzzle) (i j v : UInt8) : (p.setVar j v).flag i = p.flag i := by
  unfold setVar
  split <;> rfl

theorem var_setFlag (p : Puzzle) (i j : UInt8) : (p.setFlag j).var i = p.var i := by
  unfold setFlag
  split <;> rfl

theorem var_clearFlag (p : Puzzle) (i j : UInt8) : (p.clearFlag j).var i = p.var i := by
  unfold clearFlag
  split <;> rfl

theorem var_of_le {i : UInt8} (h : p.varCount ≤ i.toNat) : p.var i = 0 := by
  rw [var, dif_neg (by omega)]

theorem getElem?_vars {i : UInt8} (h : i.toNat < p.varCount) : p.vars[i.toNat]? = some (p.var i) := by
  have hle := p.varCount_le
  rw [var, dif_pos h, Vector.getElem?_eq_getElem (by omega)]

theorem var_setVar {i j v : UInt8} (h : i.toNat < p.varCount) :
    (p.setVar j v).var i = if i = j then v else p.var i := by
  by_cases hj : j.toNat < p.varCount
  · have hc := varChanged_setVar (v := v) hj
    apply Option.some.inj
    rw [← getElem?_vars (by rwa [hc.varCount]), hc.var]
    simp only [UInt8.toNat_inj]
    split
    · rfl
    · exact getElem?_vars h
  · have hne : i ≠ j := fun heq => hj (heq ▸ h)
    rw [if_neg hne, setVar, dif_neg hj]

end Puzzle

namespace Inventory

variable {held : Finset UInt8} {inv : Inventory}

theorem has_iff (inv : Inventory) (x : UInt8) : inv.has x = true ↔ x ∈ inv.items := by
  rw [has, List.contains_iff_mem]

theorem Taken.perm {item : UInt8} {items items' : List UInt8} (h : Taken item items items') (hmem : item ∈ items) :
    items.Perm (item :: items') := by
  cases h with
  | absent hnot => exact absurd hmem hnot
  | last _ => exact List.perm_append_singleton item items'
  | @inner before middle last _ =>
    refine List.perm_middle.trans (List.Perm.cons item ?_)
    exact (List.perm_append_singleton last middle).append_left before

/-- No item is held twice, and the items are the members of a set. -/
structure Holds (inv : Inventory) (held : Finset UInt8) : Prop where
  nodup : inv.items.Nodup
  mem : ∀ x, x ∈ inv.items ↔ x ∈ held

theorem Holds.card (h : inv.Holds held) : held.card = inv.items.length := by
  have heq : inv.items.toFinset = held := by
    ext x
    rw [List.mem_toFinset, h.mem]
  rw [← heq, List.toFinset_card_of_nodup h.nodup]

theorem Holds.add (h : inv.Holds held) (x : UInt8) : (inv.add x).Holds (Change.carry held (.addItem x)) := by
  have hg := (given_iff inv (inv.add x) x).mpr rfl
  have hle := inv.length_le
  have hc := h.card
  unfold Given at hg
  rw [Change.carry]
  by_cases hf : x ∈ inv.items ∨ inv.items.length = 8
  · rw [if_pos hf] at hg
    rw [if_pos (hf.imp (h.mem x).mp (by omega))]
    exact ⟨hg ▸ h.nodup, hg ▸ h.mem⟩
  · rw [if_neg hf] at hg
    rw [if_neg fun hca => hf (hca.imp (h.mem x).mpr (by omega))]
    rw [not_or] at hf
    refine ⟨?_, fun y => ?_⟩
    · rw [hg, ← List.concat_eq_append]
      exact h.nodup.concat hf.1
    · rw [hg, List.mem_append, List.mem_singleton, h.mem, Finset.mem_insert, or_comm]

theorem Holds.remove (h : inv.Holds held) (x : UInt8) : (inv.remove x).Holds (Change.carry held (.removeItem x)) := by
  have ht := (taken_iff inv (inv.remove x) x).mpr rfl
  rw [Change.carry]
  by_cases hx : x ∈ inv.items
  · have hp := ht.perm hx
    have hn := List.nodup_cons.mp (hp.nodup h.nodup)
    refine ⟨hn.2, fun y => ?_⟩
    rw [Finset.mem_erase, ← h.mem, hp.mem_iff, List.mem_cons]
    constructor
    · exact fun hy => ⟨fun heq => hn.1 (heq ▸ hy), .inr hy⟩
    · exact fun hy => hy.2.resolve_left hy.1
  · have hi := items_remove_of_taken (.absent hx)
    rw [Finset.erase_eq_of_notMem (mt (h.mem x).mpr hx)]
    exact ⟨hi ▸ h.nodup, hi ▸ h.mem⟩

end Inventory

/-! Whole runs -/

/-- The state answers as the changes so far demand. -/
structure Game.Remembers (g : Game) (level : LevelImage) (changes : List Change) : Prop where
  flag : ∀ i, g.puzzle.flag i = true ↔ i < level.flagCount ∧ Change.LastSets changes i
  var : ∀ i v, i.toNat < min level.varCount.toNat 64 → (g.puzzle.var i = v ↔ Change.LastStores changes i v)
  noVar : ∀ i, min level.varCount.toNat 64 ≤ i.toNat → g.puzzle.var i = 0
  nodup : g.inventory.items.Nodup
  length_le : g.inventory.items.length ≤ 8
  has : ∀ x, g.inventory.has x = true ↔ x ∈ changes.foldl Change.carry ∅

namespace Game

theorem counts_change (g : Game) (c : Change) :
    (g.change c).puzzle.flagCount = g.puzzle.flagCount ∧ (g.change c).puzzle.varCount = g.puzzle.varCount := by
  cases c with
  | setFlag i => exact g.puzzle.counts_setFlag i
  | clearFlag i => exact g.puzzle.counts_clearFlag i
  | setVar i v => exact g.puzzle.counts_setVar i v
  | addItem x => exact ⟨rfl, rfl⟩
  | removeItem x => exact ⟨rfl, rfl⟩
  | clearItems => exact ⟨rfl, rfl⟩

theorem flag_change_iff (g : Game) (c : Change) (i : UInt8) : (g.change c).puzzle.flag i = true ↔
    i < g.puzzle.flagCount ∧ (c = .setFlag i ∨ g.puzzle.flag i = true ∧ c ≠ .clearFlag i) := by
  have hc : g.puzzle.flag i = true → i < g.puzzle.flagCount := by
    intro h
    rw [Puzzle.flag_eq, Bool.and_eq_true, decide_eq_true_eq] at h
    exact h.1
  cases c with
  | setFlag j =>
    rw [change, Puzzle.flag_setFlag_iff, Change.setFlag.injEq, eq_comm]
    simp
  | clearFlag j =>
    rw [change, Puzzle.flag_clearFlag_iff]
    simp only [reduceCtorEq, false_or, ne_eq, Change.clearFlag.injEq]
    constructor
    · exact fun h => ⟨hc h.2, h.2, Ne.symm h.1⟩
    · exact fun h => ⟨Ne.symm h.2.2, h.2.1⟩
  | setVar j v =>
    rw [change, Puzzle.flag_setVar]
    simpa using hc
  | addItem x => simpa [change] using hc
  | removeItem x => simpa [change] using hc
  | clearItems => simpa [change] using hc

theorem var_change {g : Game} {i : UInt8} (hi : i.toNat < g.puzzle.varCount) {changes : List Change}
    (h : ∀ v, g.puzzle.var i = v ↔ Change.LastStores changes i v) (c : Change) (v : UInt8) :
    (g.change c).puzzle.var i = v ↔ Change.LastStores (changes ++ [c]) i v := by
  cases c with
  | setVar j w =>
    rw [change, Puzzle.var_setVar hi]
    by_cases hj : i = j
    · subst hj
      rw [if_pos rfl, Change.lastStores_concat_self, eq_comm]
    · rw [if_neg hj, Change.lastStores_concat_of_ne fun w' heq => hj (Change.setVar.inj heq).1.symm]
      exact h v
  | setFlag j =>
    rw [change, Puzzle.var_setFlag, Change.lastStores_concat_of_ne (by simp)]
    exact h v
  | clearFlag j =>
    rw [change, Puzzle.var_clearFlag, Change.lastStores_concat_of_ne (by simp)]
    exact h v
  | addItem x => rw [change, Change.lastStores_concat_of_ne (by simp), h v]
  | removeItem x => rw [change, Change.lastStores_concat_of_ne (by simp), h v]
  | clearItems => rw [change, Change.lastStores_concat_of_ne (by simp), h v]

theorem holds_change {g : Game} {held : Finset UInt8} (h : g.inventory.Holds held) (c : Change) :
    (g.change c).inventory.Holds (Change.carry held c) := by
  cases c with
  | addItem x => exact h.add x
  | removeItem x => exact h.remove x
  | clearItems => exact ⟨List.nodup_nil, fun x => by simp [change, Change.carry, Inventory.empty]⟩
  | setFlag i => exact h
  | clearFlag i => exact h
  | setVar i v => exact h

def changed (g : Game) (changes : List Change) : Game :=
  changes.foldl change g.initState

theorem changed_concat (g : Game) (changes : List Change) (c : Change) :
    g.changed (changes ++ [c]) = (g.changed changes).change c := by
  rw [changed, List.foldl_concat, changed]

theorem counts_changed (g : Game) (changes : List Change) :
    (g.changed changes).puzzle.flagCount = g.level.flagCount ∧
      (g.changed changes).puzzle.varCount = min g.level.varCount.toNat 64 := by
  induction changes using List.reverseRecOn with
  | nil => exact ⟨rfl, rfl⟩
  | append_singleton changes c ih =>
    have hc := (g.changed changes).counts_change c
    rw [changed_concat]
    exact ⟨hc.1.trans ih.1, hc.2.trans ih.2⟩

theorem flag_changed_iff (g : Game) (changes : List Change) (i : UInt8) :
    (g.changed changes).puzzle.flag i = true ↔ i < g.level.flagCount ∧ Change.LastSets changes i := by
  induction changes using List.reverseRecOn with
  | nil =>
    have hc : (g.changed []).puzzle.flag i = false := by
      have hbit : (g.changed []).puzzle.bit i.toNat = false := Puzzle.bit_start g.level i.toNat
      rw [Puzzle.flag_eq, hbit, Bool.and_false]
    rw [hc]
    simp [Change.LastSets]
  | append_singleton changes c ih =>
    rw [changed_concat, flag_change_iff, (g.counts_changed changes).1, ih, Change.lastSets_concat]
    tauto

theorem var_changed_iff (g : Game) (changes : List Change) {i : UInt8} (hi : i.toNat < min g.level.varCount.toNat 64)
    (v : UInt8) : (g.changed changes).puzzle.var i = v ↔ Change.LastStores changes i v := by
  induction changes using List.reverseRecOn generalizing v with
  | nil =>
    have hz : (g.changed []).puzzle.var i = 0 := by
      have hc := Puzzle.getElem?_vars (p := (g.changed []).puzzle) (i := i) (by rwa [(g.counts_changed []).2])
      have hv : (g.changed []).puzzle.vars = Vector.replicate 64 0 := rfl
      rw [hv, Vector.getElem?_replicate, if_pos (by omega)] at hc
      exact (Option.some.inj hc).symm
    have hn : ¬ ∃ before after, ([] : List Change) = before ++ .setVar i v :: after ∧ ∀ w, .setVar i w ∉ after := by
      simp
    rw [hz, Change.LastStores, or_iff_right hn, and_iff_left fun _ => List.not_mem_nil, eq_comm]
  | append_singleton changes c ih =>
    rw [changed_concat]
    exact var_change (by rwa [(g.counts_changed changes).2]) ih c v

theorem holds_changed (g : Game) (changes : List Change) :
    (g.changed changes).inventory.Holds (changes.foldl Change.carry ∅) := by
  induction changes using List.reverseRecOn with
  | nil => exact ⟨List.nodup_nil, fun x => by simp [changed, initState, initPuzzle, Inventory.empty]⟩
  | append_singleton changes c ih =>
    rw [changed_concat, List.foldl_concat]
    exact holds_change ih c

theorem remembers_changed (g : Game) (changes : List Change) : (g.changed changes).Remembers g.level changes := by
  have hh := g.holds_changed changes
  refine ⟨g.flag_changed_iff changes, fun i v hi => g.var_changed_iff changes hi v, fun i hi => ?_, hh.nodup,
    (g.changed changes).inventory.length_le, fun x => ?_⟩
  · exact Puzzle.var_of_le (by rwa [(g.counts_changed changes).2])
  · rw [Inventory.has_iff, hh.mem]

end Game

/-! Arrays -/

/-- The arrays that hold flags, variables and items, with their numbers. Items behind their number are left over. -/
structure Storage where
  flags : Vector UInt8 32
  vars : Vector UInt8 64
  items : Vector UInt8 8
  flagCount : UInt8
  varCount : UInt8
  itemCount : UInt8

namespace Storage

/-- Writes a cell of an array. None stands for an access outside of it, here and below. -/
def write? {n : Nat} (cells : Vector UInt8 n) (i : Nat) (value : UInt8) : Option (Vector UInt8 n) :=
  if h : i < n then some (cells.set i value h) else none

def clear? {n : Nat} (cells : Vector UInt8 n) : Nat → Option (Vector UInt8 n)
  | 0 => some cells
  | k + 1 => do write? (← clear? cells k) k 0

/-- The first place of an item, looking at some cells from `i` on. -/
def seek? (items : Vector UInt8 8) (x : UInt8) (i : Nat) : Nat → Option (Option Nat)
  | 0 => some none
  | k + 1 => do if (← items[i]?) = x then return some i else seek? items x (i + 1) k

def init? (s : Storage) (level : LevelImage) : Option Storage := do
  let flags ← clear? s.flags 32
  let vars ← clear? s.vars 64
  return { s with
    flags, vars
    flagCount := level.flagCount
    varCount := if 64 < level.varCount then 64 else level.varCount
    itemCount := 0 }

def flag? (s : Storage) (i : UInt8) : Option UInt8 :=
  if s.flagCount ≤ i then some 0
  else do return (← s.flags[i.toNat / 8]?) >>> (i % 8) &&& 1

def var? (s : Storage) (i : UInt8) : Option UInt8 :=
  if s.varCount ≤ i then some 0 else s.vars[i.toNat]?

def has? (s : Storage) (x : UInt8) : Option Bool := do
  return (← seek? s.items x 0 s.itemCount.toNat).isSome

def changeFlag? (s : Storage) (i : UInt8) (f : UInt8 → UInt8) : Option Storage :=
  if s.flagCount ≤ i then some s
  else do
    let flags ← write? s.flags (i.toNat / 8) (f (← s.flags[i.toNat / 8]?))
    return { s with flags }

def addItem? (s : Storage) (x : UInt8) : Option Storage := do
  if ← s.has? x then return s
  else if 8 ≤ s.itemCount then return s
  else
    let items ← write? s.items s.itemCount.toNat x
    return { s with items, itemCount := s.itemCount + 1 }

def removeItem? (s : Storage) (x : UInt8) : Option Storage := do
  match ← seek? s.items x 0 s.itemCount.toNat with
  | none => return s
  | some i =>
    let items ← write? s.items i (← s.items[(s.itemCount - 1).toNat]?)
    return { s with items, itemCount := s.itemCount - 1 }

def change? (s : Storage) : Change → Option Storage
  | .setFlag i => s.changeFlag? i (· ||| Puzzle.bitMask i)
  | .clearFlag i => s.changeFlag? i (· &&& ~~~Puzzle.bitMask i)
  | .setVar i v =>
    if s.varCount ≤ i then some s
    else do
      let vars ← write? s.vars i.toNat v
      return { s with vars }
  | .addItem x => s.addItem? x
  | .removeItem x => s.removeItem? x
  | .clearItems => some { s with itemCount := 0 }

/-- The arrays hold a state of flags, variables and items. -/
structure Represents (s : Storage) (p : Puzzle) (inv : Inventory) : Prop where
  flags : s.flags = p.flagBytes
  vars : s.vars = p.vars
  flagCount : s.flagCount = p.flagCount
  varCount : s.varCount.toNat = p.varCount
  items : s.items.toList.take s.itemCount.toNat = inv.items
  itemCount : s.itemCount.toNat = inv.items.length

theorem write?_eq {n : Nat} {cells : Vector UInt8 n} {i : Nat} {value : UInt8} (h : i < n) :
    write? cells i value = some (cells.set i value h) := by
  rw [write?, dif_pos h]

theorem exists_clear? {n k : Nat} (cells : Vector UInt8 n) (hk : k ≤ n) :
    ∃ cells', clear? cells k = some cells' ∧ ∀ i, i < k → cells'[i]? = some 0 := by
  induction k with
  | zero => exact ⟨cells, rfl, fun i hi => absurd hi (Nat.not_lt_zero i)⟩
  | succ k ih =>
    obtain ⟨cells', hc, hz⟩ := ih (by omega)
    refine ⟨cells'.set k 0 (by omega), by rw [clear?, hc]; exact write?_eq (by omega), fun i hi => ?_⟩
    rw [Vector.getElem?_set]
    by_cases hik : k = i
    · rw [if_pos hik]
    · rw [if_neg hik]
      exact hz i (by omega)

theorem clear?_eq {n : Nat} (cells : Vector UInt8 n) : clear? cells n = some (Vector.replicate n 0) := by
  obtain ⟨cells', hc, hz⟩ := exists_clear? cells (Nat.le_refl n)
  rw [hc]
  congr 1
  refine Vector.ext fun i hi => Option.some.inj ?_
  rw [← Vector.getElem?_eq_getElem hi, hz i hi, Vector.getElem_replicate]

theorem seek?_eq {items : Vector UInt8 8} (x : UInt8) {i k : Nat} (h : i + k ≤ 8) :
    seek? items x i k = some ((((items.toList.drop i).take k).findIdx? (· == x)).map (i + ·)) := by
  induction k generalizing i with
  | zero => simp [seek?]
  | succ k ih =>
    have hi : i < items.toList.length := by
      rw [Vector.length_toList]
      omega
    rw [seek?, List.drop_eq_getElem_cons hi, List.take_succ_cons, List.findIdx?_cons, ih (by omega),
      Vector.getElem?_eq_getElem (by omega)]
    have hc : items.toList[i] = items[i] := Vector.getElem_toList ..
    by_cases hx : items[i] = x
    · simp [hc, hx]
    · simp only [Option.bind_eq_bind, Option.bind_some, hc, if_neg hx, beq_false_of_ne hx, Bool.false_eq_true, if_false,
        Option.map_map]
      congr 2
      funext j
      simp only [Function.comp_apply]
      omega

variable {s : Storage} {p : Puzzle} {inv : Inventory}

theorem Represents.itemCount_le (h : s.Represents p inv) : s.itemCount.toNat ≤ 8 :=
  h.itemCount.trans_le inv.length_le

theorem Represents.seek?_eq (h : s.Represents p inv) (x : UInt8) :
    seek? s.items x 0 s.itemCount.toNat = some (inv.items.findIdx? (· == x)) := by
  have hle := h.itemCount_le
  have hz : (fun j => 0 + j) = id := by
    funext j
    exact Nat.zero_add j
  rw [Storage.seek?_eq x (by omega), List.drop_zero, h.items, hz, Option.map_id, id]

theorem Represents.has?_eq (h : s.Represents p inv) (x : UInt8) : s.has? x = some (inv.has x) := by
  rw [has?, h.seek?_eq]
  simp only [Option.bind_eq_bind, Option.bind_some, Option.pure_def, Option.some.injEq]
  rw [List.findIdx?_isSome, Bool.eq_iff_iff, Inventory.has_iff, List.any_eq_true]
  simp

theorem Represents.le_varCount_iff (h : s.Represents p inv) (i : UInt8) : s.varCount ≤ i ↔ p.varCount ≤ i.toNat := by
  rw [UInt8.le_iff_toNat_le, h.varCount]

theorem Represents.var?_eq (h : s.Represents p inv) (i : UInt8) : s.var? i = some (p.var i) := by
  rw [var?]
  by_cases hi : s.varCount ≤ i
  · rw [if_pos hi, Puzzle.var_of_le ((h.le_varCount_iff i).mp hi)]
  · rw [if_neg hi, h.vars]
    exact Puzzle.getElem?_vars (Nat.lt_of_not_le (mt (h.le_varCount_iff i).mpr hi))

theorem shiftRight_and_one (b i : UInt8) :
    b >>> (i % 8) &&& 1 = if b.toNat.testBit (i.toNat % 8) then 1 else 0 := by
  have hp : (i % 8).toNat % 8 = i.toNat % 8 := by simp
  have hv : (b >>> (i % 8) &&& 1).toNat = b.toNat / 2 ^ (i.toNat % 8) % 2 := by
    rw [UInt8.toNat_and, UInt8.toNat_shiftRight, hp, Nat.shiftRight_eq_div_pow]
    exact Nat.and_one_is_mod _
  rw [← UInt8.toNat_inj, hv, Nat.testBit_eq_decide_div_mod_eq]
  rcases Nat.mod_two_eq_zero_or_one (b.toNat / 2 ^ (i.toNat % 8)) with h | h
  · simp [h]
  · simp [h]

theorem byteIndex_lt (i : UInt8) : i.toNat / 8 < 32 := (Puzzle.byteIndex i).isLt

theorem Represents.flag?_eq (h : s.Represents p inv) (i : UInt8) : s.flag? i = some (if p.flag i then 1 else 0) := by
  rw [flag?, h.flagCount, h.flags]
  by_cases hi : p.flagCount ≤ i
  · rw [if_pos hi, Puzzle.flag_eq, decide_eq_false (UInt8.not_lt.mpr hi)]
    rfl
  · rw [if_neg hi, Vector.getElem?_eq_getElem (byteIndex_lt i), Puzzle.flag, Puzzle.and_bitMask_ne_zero,
      decide_eq_true (UInt8.not_le.mp hi), Bool.true_and]
    exact congrArg some (shiftRight_and_one _ i)

theorem exists_init? (s : Storage) (level : LevelImage) :
    ∃ s', s.init? level = some s' ∧ s'.Represents (Puzzle.start level) .empty := by
  refine ⟨_, by rw [init?, clear?_eq, clear?_eq]; rfl, rfl, rfl, rfl, ?_, rfl, rfl⟩
  have h64 : (64 : UInt8).toNat = 64 := rfl
  have hs : (Puzzle.start level).varCount = min level.varCount.toNat 64 := rfl
  rw [hs]
  dsimp only
  by_cases hlt : 64 < level.varCount
  · rw [if_pos hlt]
    rw [UInt8.lt_iff_toNat_lt] at hlt
    omega
  · rw [if_neg hlt]
    rw [UInt8.lt_iff_toNat_lt] at hlt
    omega

theorem Represents.exists_changeFlag? (h : s.Represents p inv) {i : UInt8} {f : UInt8 → UInt8} {p' : Puzzle}
    (hs : p.flagCount ≤ i → p' = p)
    (hb : ¬ p.flagCount ≤ i → p' = { p with
      flagBytes := p.flagBytes.set (Puzzle.byteIndex i) (f (p.flagBytes.get ⟨Puzzle.byteIndex i, byteIndex_lt i⟩))
        (byteIndex_lt i) }) :
    ∃ s', s.changeFlag? i f = some s' ∧ s'.Represents p' inv := by
  rw [changeFlag?, h.flagCount]
  by_cases hi : p.flagCount ≤ i
  · rw [if_pos hi, hs hi]
    exact ⟨s, rfl, h⟩
  · rw [if_neg hi, hb hi, h.flags, Vector.getElem?_eq_getElem (byteIndex_lt i)]
    simp only [Option.bind_eq_bind, Option.bind_some, write?_eq (byteIndex_lt i)]
    exact ⟨_, rfl, rfl, h.vars, rfl, h.varCount, h.items, h.itemCount⟩

theorem Represents.exists_setVar (h : s.Represents p inv) (i v : UInt8) :
    ∃ s', s.change? (.setVar i v) = some s' ∧ s'.Represents (p.setVar i v) inv := by
  rw [change?, Puzzle.setVar]
  by_cases hi : s.varCount ≤ i
  · rw [if_pos hi, dif_neg (Nat.not_lt.mpr ((h.le_varCount_iff i).mp hi))]
    exact ⟨s, rfl, h⟩
  · have hlt : i.toNat < p.varCount := Nat.lt_of_not_le (mt (h.le_varCount_iff i).mpr hi)
    have hle := p.varCount_le
    rw [if_neg hi, dif_pos hlt, write?_eq (by omega), h.vars]
    exact ⟨_, rfl, h.flags, rfl, h.flagCount, h.varCount, h.items, h.itemCount⟩

theorem Represents.exists_addItem (h : s.Represents p inv) (x : UInt8) :
    ∃ s', s.addItem? x = some s' ∧ s'.Represents p (inv.add x) := by
  have hc := h.itemCount
  have hg := (Inventory.given_iff inv (inv.add x) x).mpr rfl
  have hle := h.itemCount_le
  have h8 : 8 ≤ s.itemCount ↔ inv.items.length = 8 := by
    have htn : (8 : UInt8).toNat = 8 := rfl
    rw [UInt8.le_iff_toNat_le]
    omega
  unfold Inventory.Given at hg
  rw [addItem?, h.has?_eq]
  simp only [Option.bind_eq_bind, Option.bind_some, Inventory.has_iff, h8]
  by_cases hhas : x ∈ inv.items
  · rw [if_pos (.inl hhas)] at hg
    rw [if_pos hhas, Inventory.ext_items hg]
    exact ⟨s, rfl, h⟩
  · by_cases hf : inv.items.length = 8
    · rw [if_pos (.inr hf)] at hg
      rw [if_neg hhas, if_pos hf, Inventory.ext_items hg]
      exact ⟨s, rfl, h⟩
    · have hlt : s.itemCount.toNat < 8 := by omega
      have hn : (s.itemCount + 1).toNat = s.itemCount.toNat + 1 := by
        rw [UInt8.toNat_add]
        exact Nat.mod_eq_of_lt (Nat.lt_of_le_of_lt (Nat.succ_le_of_lt hlt) (by decide))
      rw [if_neg (not_or.mpr ⟨hhas, hf⟩)] at hg
      rw [if_neg hhas, if_neg hf, write?_eq hlt]
      refine ⟨_, rfl, h.flags, h.vars, h.flagCount, h.varCount, ?_, ?_⟩
      · dsimp only
        rw [hn, Vector.toList_set, List.take_add_one, List.take_set_of_le (Nat.le_refl _), h.items, hg,
          List.getElem?_set_self (by rw [Vector.length_toList]; exact hlt)]
        rfl
      · dsimp only
        rw [hn, hg, List.length_append, hc]
        rfl

theorem Represents.exists_removeItem (h : s.Represents p inv) (x : UInt8) :
    ∃ s', s.removeItem? x = some s' ∧ s'.Represents p (inv.remove x) := by
  have hc := h.itemCount
  have hle := h.itemCount_le
  have hl : s.items.toList.length = 8 := s.items.length_toList
  rw [removeItem?, h.seek?_eq]
  simp only [Option.bind_eq_bind, Option.bind_some]
  cases hf : inv.items.findIdx? (· == x) with
  | none =>
    have hr : inv.remove x = inv := by rw [Inventory.remove, hf]
    rw [hr]
    exact ⟨s, rfl, h⟩
  | some i =>
    obtain ⟨hi, -⟩ := List.findIdx?_eq_some_iff_getElem.mp hf
    have hone : (1 : UInt8) ≤ s.itemCount := by
      have htn : (1 : UInt8).toNat = 1 := rfl
      rw [UInt8.le_iff_toNat_le]
      omega
    have hp : (s.itemCount - 1).toNat = s.itemCount.toNat - 1 := UInt8.toNat_sub_of_le _ _ hone
    have hla : inv.items.getLast? = some (s.items[s.itemCount.toNat - 1]) := by
      rw [List.getLast?_eq_getElem?, ← h.items, List.length_take, hl, Nat.min_eq_left hle,
        List.getElem?_take_of_lt (by omega), Vector.getElem?_toList, Vector.getElem?_eq_getElem]
    have hit : (inv.remove x).items = Inventory.closeGap inv.items i := by rw [Inventory.remove, hf]
    rw [Inventory.closeGap, hla] at hit
    dsimp only at hit ⊢
    rw [hp, Vector.getElem?_eq_getElem (by omega), Option.bind_some, write?_eq (by omega)]
    refine ⟨_, rfl, h.flags, h.vars, h.flagCount, h.varCount, ?_, ?_⟩
    · dsimp only
      rw [hp, hit, ← h.items, Vector.toList_set, List.dropLast_eq_take, List.length_set, List.length_take, hl,
        Nat.min_eq_left hle, ← List.take_set, List.take_take, Nat.min_eq_left (by omega)]
    · dsimp only
      rw [hp, hit, List.length_dropLast, List.length_set, hc]

theorem Represents.exists_change {g : Game} (h : s.Represents g.puzzle g.inventory) (c : Change) :
    ∃ s', s.change? c = some s' ∧ s'.Represents (g.change c).puzzle (g.change c).inventory := by
  cases c with
  | setFlag i => exact h.exists_changeFlag? (fun hi => if_pos hi) fun hi => if_neg hi
  | clearFlag i => exact h.exists_changeFlag? (fun hi => if_pos hi) fun hi => if_neg hi
  | setVar i v => exact h.exists_setVar i v
  | addItem x => exact h.exists_addItem x
  | removeItem x => exact h.exists_removeItem x
  | clearItems => exact ⟨_, rfl, h.flags, h.vars, h.flagCount, h.varCount, rfl, rfl⟩

theorem Represents.exists_changes {g : Game} (h : s.Represents g.puzzle g.inventory) (changes : List Change) :
    ∃ s', changes.foldlM change? s = some s' ∧
      s'.Represents (changes.foldl Game.change g).puzzle (changes.foldl Game.change g).inventory := by
  induction changes generalizing s g with
  | nil => exact ⟨s, rfl, h⟩
  | cons c changes ih =>
    obtain ⟨s₁, hs₁, h₁⟩ := h.exists_change c
    obtain ⟨s₂, hs₂, h₂⟩ := ih h₁
    exact ⟨s₂, by rw [List.foldlM_cons, hs₁]; exact hs₂, h₂⟩

end Storage

/-- Flags, variables and items are what the changes so far demand, in any level and after any changes. The arrays
that hold them are only accessed inside their bounds, and answer the same. -/
theorem Game.remembers_changes (g : Game) (old : Storage) (changes : List Change) :
    (g.changed changes).Remembers g.level changes ∧
    ∃ s, (old.init? g.level >>= fun s => changes.foldlM Storage.change? s) = some s ∧
      (∀ i, s.flag? i = some (if (g.changed changes).puzzle.flag i then 1 else 0)) ∧
      (∀ i, s.var? i = some ((g.changed changes).puzzle.var i)) ∧
      ∀ x, s.has? x = some ((g.changed changes).inventory.has x) := by
  obtain ⟨s₀, hs₀, h₀⟩ := old.exists_init? g.level
  obtain ⟨s, hs, h⟩ := Storage.Represents.exists_changes (g := g.initState) h₀ changes
  refine ⟨g.remembers_changed changes, s, ?_, h.flag?_eq, h.var?_eq, h.has?_eq⟩
  rw [hs₀, Option.bind_eq_bind, Option.bind_some, hs]

end EscapeRoom
