import EscapeRoom.Json.Read
import EscapeRoom.Number.Literal
import EscapeRoom.Number.Rounding
import EscapeRoom.TileKit.Names

/-!
# Tile specifications

A specification lists cells of a picture that are tiles, and objects that cover rectangles of cells. It
is expanded into entries: one for each kind of cell that no object covers, and one for each part of each
kind of object. An entry is sampled where its kind is met first.
-/

namespace EscapeRoom.TileKit

inductive SpecError where
  /-- Something that should have named members has none. -/
  | noMembers
  | notText
  /-- A list that is none, or a list of flags with something else in it. -/
  | notList
  | notNumber
  | literal (error : Number.LiteralError)
  | infinite
  | undefined
  deriving Repr, DecidableEq

def SpecError.message : SpecError → String
  | .noMembers => "a part of the specification has no members"
  | .notText => "a description or a kind is no text"
  | .notList => "a part of the specification is no list of the right things"
  | .notNumber => "a position or a size is no number"
  | .literal e => e.message
  | .infinite => "cannot convert float infinity to integer"
  | .undefined => "cannot convert float NaN to integer"

/-- The integer that a JSON value stands for. Fractions are cut off and texts are read. -/
def integerOf : Json → Except SpecError Int
  | .int n => .ok n
  | .bool b => .ok (if b then 1 else 0)
  | .str s => (Number.parseLiteral .decimal s).mapError .literal
  | .real x =>
    match x.truncate? with
    | some n => .ok n
    | none => .error (if x = .undefined then .undefined else .infinite)
  | _ => .error .notNumber

def isGiven : Json → Bool
  | .null => false
  | .bool b => b
  | .int n => n != 0
  | .real x => !x.isZero
  | .str s => !s.isEmpty
  | .arr items => !items.isEmpty
  | .obj members => !members.isEmpty

def elementsOf : Json → Except SpecError (List Json)
  | .arr items => .ok items
  | .obj members => .ok (members.map fun (key, _) => .str key)
  | .str s => .ok (s.toList.map fun c => .str (String.singleton c))
  | _ => .error .notList

def memberOr (v : Json) (key : String) (default : Json) : Except SpecError Json :=
  match v with
  | .obj members => .ok (Table.getD members key default)
  | _ => .error .noMembers

def integerMember (v : Json) (key : String) (default : Int) : Except SpecError Int := do
  integerOf (← memberOr v key (.int default))

/-- A trimmed text member, or another text if the member is not given. -/
def textMember (v : Json) (key instead : String) : Except SpecError String := do
  let member ← memberOr v key .null
  if !isGiven member then return Text.trim instead
  match member with
  | .str s => return Text.trim s
  | _ => throw .notText

def flagsMember (v : Json) : Except SpecError String := do
  let flags ← elementsOf (← memberOr v "flags" (.arr []))
  let names ← flags.mapM fun
    | .str s => .ok s
    | _ => .error SpecError.notList
  return flagsText (Text.join " " names)

/-- A part of an object: which object it belongs to, and where it lies in it. -/
structure ObjectPart where
  objectId : Json
  type : String
  description : String
  width : Int
  height : Int
  dx : Int
  dy : Int

structure Entry where
  id : String
  name : String
  flags : String
  x : Int
  y : Int
  part : Option ObjectPart := none

structure Covered where
  object : Json
  dx : Nat
  dy : Nat

def coveredBy (object : Json) : Except SpecError (List ((Int × Int) × Covered)) := do
  let x ← integerMember object "x" 0
  let y ← integerMember object "y" 0
  let width ← integerMember object "w" 1
  let height ← integerMember object "h" 1
  return (List.range height.toNat).flatMap fun (dy : Nat) =>
    (List.range width.toNat).map fun (dx : Nat) => ((x + dx, y + dy), ⟨object, dx, dy⟩)

inductive Kind where
  | cell (description flags : String)
  | part (type description flags : String) (dx dy width height : Int)
  deriving Repr, DecidableEq

structure Expansion where
  entries : List Entry := []
  kinds : List Kind := []

/-- The expansion with an entry, unless there is one of its kind. -/
def Expansion.add (e : Expansion) (kind : Kind) (name flags : String) (cell : Int × Int)
    (part : Option ObjectPart) : Expansion :=
  if e.kinds.contains kind then e
  else
    { kinds := e.kinds ++ [kind]
      entries := e.entries ++ [
        { id := "AUTO_" ++ Number.decimalZeros 3 (e.entries.length + 1 : Nat)
          name
          flags := if flags.isEmpty then "DECOR" else flags
          x := cell.1 * 16
          y := cell.2 * 16
          part }] }

def addCell (covered : Table (Int × Int) Covered) (e : Expansion) (cell : Json) :
    Except SpecError Expansion := do
  let x ← integerMember cell "x" 0
  let y ← integerMember cell "y" 0
  if covered.has (x, y) then return e
  let description ← textMember cell "description" "CELL"
  let flags ← flagsMember cell
  return e.add (.cell description flags) description flags (x, y) none

def partName (type description : String) (dx dy width height : Int) : String :=
  type ++ " " ++ description ++ " part " ++ toString (dx + 1) ++ "," ++ toString (dy + 1) ++ "/" ++
    toString width ++ "," ++ toString height

def addPart (e : Expansion) (cell : Int × Int) (c : Covered) : Except SpecError Expansion := do
  let type ← textMember c.object "type" "OBJECT"
  let description ← textMember c.object "description" type
  let flags ← flagsMember c.object
  let width ← integerMember c.object "w" 1
  let height ← integerMember c.object "h" 1
  let objectId ← memberOr c.object "id" (.str "")
  let (dx, dy) := ((c.dx : Int), (c.dy : Int))
  return e.add (.part type description flags dx dy width height)
    (partName type description dx dy width height) flags cell
    (some { objectId, type, description, width, height, dx, dy })

/-- Cells in order of their columns, and in a column from top to bottom. -/
def cellLe (a b : Int × Int) : Bool :=
  a.1 < b.1 || (a.1 == b.1 && a.2 ≤ b.2)

/-- The entries of a specification. Where objects overlap, the last one covers the cell. -/
def expand (spec : Json) : Except SpecError (List Entry) := do
  let cells ← memberOr spec "cells" (.arr [])
  let objects ← memberOr spec "objects" (.arr [])
  let covered ← (← elementsOf objects).foldlM (fun t object => do
    return Table.putAll t (← coveredBy object)) ([] : Table (Int × Int) Covered)
  let e ← (← elementsOf cells).foldlM (addCell covered) {}
  let parts := covered.mergeSort fun a b => cellLe a.1 b.1
  let e ← parts.foldlM (fun e (cell, c) => addPart e cell c) e
  return e.entries

end EscapeRoom.TileKit
