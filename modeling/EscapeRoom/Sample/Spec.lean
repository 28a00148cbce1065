import EscapeRoom.Json.Value

/-!
# Sample tile specifications

A specification with a number of cells, which fill a screen row by row, and a number of objects, which
stand beside each other on the tenth row and begin again at its left end when they have filled it.
-/

namespace EscapeRoom.Sample

def specCell (i : Nat) : Json :=
  .obj [("x", .int (i % 20 : Nat)), ("y", .int (i / 20 % 12 : Nat)), ("w", .int 1), ("h", .int 1),
    ("flags", .arr (if i % 2 = 0 then [.str "SOLID"] else [.str "SOLID", .str "DECOR"])),
    ("description", .str ("cell " ++ toString i ++ " kind"))]

def specObjectWidth (i : Nat) : Nat :=
  1 + i % 2

/-- Where an object stands: after the ones before it, and at the left end when the row is full. -/
def specObjectX : Nat → Nat
  | 0 => 0
  | i + 1 =>
    let x := specObjectX i + specObjectWidth i
    if 18 ≤ x then 0 else x

def specObject (i : Nat) : Json :=
  .obj [("id", .str ("O" ++ toString i)), ("type", .str ("TYPE" ++ toString i)),
    ("x", .int (specObjectX i)), ("y", .int 10), ("w", .int (specObjectWidth i)), ("h", .int 1),
    ("flags", .arr [.str "INTERACTABLE"]), ("description", .str ("object " ++ toString i))]

def spec (cells objects : Nat) : Json :=
  .obj [("cells", .arr ((List.range cells).map specCell)),
    ("objects", .arr ((List.range objects).map specObject))]

end EscapeRoom.Sample
