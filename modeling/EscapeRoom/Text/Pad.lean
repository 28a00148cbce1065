/-!
# Texts of a least width

A text that is too short is filled up with blanks, on its right or on its left.
-/

namespace EscapeRoom.Text

def padRight (width : Nat) (s : String) : String :=
  s ++ String.ofList (List.replicate (width - s.length) ' ')

def padLeft (width : Nat) (s : String) : String :=
  String.ofList (List.replicate (width - s.length) ' ') ++ s

end EscapeRoom.Text
