import EscapeRoom.Text.Printable

/-!
# Quoted texts

A text is shown between single quotes, or between double quotes when it holds a single quote and
no double quote. Unprintable characters are shown by their code.
-/

namespace EscapeRoom.Text

def lowerHexDigit (n : Nat) : Char :=
  if n < 10 then Char.ofNat (48 + n) else Char.ofNat (87 + n)

/-- The last `width` hexadecimal digits of a number. -/
def lowerHex (width n : Nat) : List Char :=
  match width with
  | 0 => []
  | w + 1 => lowerHex w (n / 16) ++ [lowerHexDigit (n % 16)]

/-- How a character is shown between `quote` characters. -/
def escapeIn (quote c : Char) : List Char :=
  if c = '\\' || c = quote then ['\\', c]
  else if c = '\n' then ['\\', 'n']
  else if c = '\r' then ['\\', 'r']
  else if c = '\t' then ['\\', 't']
  else if isPrintable c then [c]
  else if c.toNat < 0x100 then '\\' :: 'x' :: lowerHex 2 c.toNat
  else if c.toNat < 0x10000 then '\\' :: 'u' :: lowerHex 4 c.toNat
  else '\\' :: 'U' :: lowerHex 8 c.toNat

def quoted (s : String) : String :=
  let cs := s.toList
  let quote := if cs.contains '\'' && !cs.contains '"' then '"' else '\''
  String.ofList (quote :: cs.flatMap (escapeIn quote) ++ [quote])

end EscapeRoom.Text
