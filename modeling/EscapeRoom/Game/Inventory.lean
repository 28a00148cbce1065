/-!
# Inventory

The player carries up to eight different items. An item that is taken away leaves its place to the last
one.
-/

namespace EscapeRoom

structure Inventory where
  items : List UInt8 := []
  length_le : items.length ≤ 8 := by decide
  deriving Repr, DecidableEq

namespace Inventory

def capacity : Nat := 8

def empty : Inventory := {}

def has (inv : Inventory) (item : UInt8) : Bool :=
  inv.items.contains item

/-- The inventory with an item, unless it is there already or there is no place left. -/
def add (inv : Inventory) (item : UInt8) : Inventory :=
  if h : inv.has item ∨ capacity ≤ inv.items.length then inv
  else
    { items := inv.items ++ [item]
      length_le := by
        have := not_or.1 h
        simp only [capacity] at this
        simp only [List.length_append, List.length_singleton]
        omega }

/-- The list without its element at `i`, the last element in its place. -/
def closeGap (items : List UInt8) (i : Nat) : List UInt8 :=
  match items.getLast? with
  | none => items
  | some last => (items.set i last).dropLast

theorem length_closeGap_le (items : List UInt8) (i : Nat) :
    (closeGap items i).length ≤ items.length := by
  unfold closeGap
  split <;> simp

def remove (inv : Inventory) (item : UInt8) : Inventory :=
  match inv.items.findIdx? (· == item) with
  | none => inv
  | some i =>
    { items := closeGap inv.items i
      length_le := Nat.le_trans (length_closeGap_le inv.items i) inv.length_le }

end Inventory

end EscapeRoom
