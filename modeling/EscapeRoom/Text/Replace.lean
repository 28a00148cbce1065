import EscapeRoom.Text.Cut

/-!
# Replacing parts of a text
-/

namespace EscapeRoom.Text

/-- The characters with `new` for every `old`, found from the left; `skip` characters belong to one that
was found. -/
def replaceFrom (old new : List Char) (skip : Nat) : List Char → List Char
  | [] => []
  | c :: rest =>
    match skip with
    | skip + 1 => replaceFrom old new skip rest
    | 0 =>
      if old.isPrefixOf (c :: rest) then new ++ replaceFrom old new (old.length - 1) rest
      else c :: replaceFrom old new 0 rest

/-- The text with `new` in place of every `old`; `old` must not be empty. -/
def replace (s old new : String) : String :=
  String.ofList (replaceFrom old.toList new.toList 0 s.toList)

def occursIn (pattern s : String) : Bool :=
  (indexOf? pattern.toList s.toList).isSome

end EscapeRoom.Text
