import EscapeRoom.Json.Value
import EscapeRoom.Number.Literal

/-!
# Reading JSON

The reader takes strict JSON together with the words `NaN`, `Infinity` and `-Infinity`. Of two members
with one key the later value counts, in the place of the earlier. A text that is no JSON is refused with
the place where it went wrong.
-/

namespace EscapeRoom.Json

inductive Fault where
  | noValue
  | noKey
  | noColon
  | noComma
  | openString
  | controlCharacter
  | escape
  | unitEscape
  | extraText
  | byteOrderMark
  deriving Repr, DecidableEq

def Fault.message : Fault → String
  | .noValue => "Expecting value"
  | .noKey => "Expecting property name enclosed in double quotes"
  | .noColon => "Expecting ':' delimiter"
  | .noComma => "Expecting ',' delimiter"
  | .openString => "Unterminated string starting at"
  | .controlCharacter => "Invalid control character at"
  | .escape => "Invalid \\escape"
  | .unitEscape => "Invalid \\uXXXX escape"
  | .extraText => "Extra data"
  | .byteOrderMark => "Unexpected UTF-8 BOM (decode using utf-8-sig)"

/-- Why reading stops. A fault is placed by the number of characters from it to the end of the text. -/
inductive Stop where
  | fault (f : Fault) (left : Nat)
  | literalTooLong (digits : Nat)
  deriving Repr, DecidableEq

/-- Why a text has no value. Positions count from zero, lines and columns from one. -/
inductive ReadError where
  | malformed (fault : Fault) (line column position : Nat)
  | literalTooLong (digits : Nat)
  deriving Repr, DecidableEq

def ReadError.message : ReadError → String
  | .malformed fault line column position =>
    fault.message ++ ": line " ++ toString line ++ " column " ++ toString column ++ " (char " ++
      toString position ++ ")"
  | .literalTooLong digits => (Number.LiteralError.tooLong digits).message

def malformedAt (cs : List Char) (fault : Fault) (position : Nat) : ReadError :=
  let before := cs.take position
  let column := (before.reverse.takeWhile (· != '\n')).length + 1
  .malformed fault (before.count '\n' + 1) column position

def skipBlanks (cs : List Char) : List Char :=
  cs.dropWhile fun c => c = ' ' || c = '\t' || c = '\n' || c = '\r'

def hexUnit? (a b c d : Char) : Option Nat :=
  ([a, b, c, d].mapM (Number.digitIn? 16)).map (Number.digitsValue 16)

def simpleEscape? (c : Char) : Option Char :=
  match c with
  | '"' => some '"'
  | '\\' => some '\\'
  | '/' => some '/'
  | 'b' => some (Char.ofNat 8)
  | 'f' => some (Char.ofNat 12)
  | 'n' => some '\n'
  | 'r' => some '\r'
  | 't' => some '\t'
  | _ => none

/-- A UTF-16 unit on its own; half of a pair has no character. -/
def unitChar (n : Nat) : Char :=
  if 0xD800 ≤ n && n ≤ 0xDFFF then Char.ofNat 0xFFFD else Char.ofNat n

def lowUnit? : List Char → Option Nat
  | '\\' :: 'u' :: a :: b :: c :: d :: _ =>
    (hexUnit? a b c d).filter fun n => 0xDC00 ≤ n && n ≤ 0xDFFF
  | _ => none

/-- The characters of a string up to its closing quote. The string opened `start` characters before
the end of the text. -/
def readChars (start : Nat) (chars : List Char) (cs : List Char) : Except Stop (String × List Char) :=
  match cs with
  | [] => .error (.fault .openString start)
  | '"' :: rest => .ok (String.ofList chars.reverse, rest)
  | '\\' :: 'u' :: a :: b :: c :: d :: rest =>
    match hexUnit? a b c d with
    | none => .error (.fault .unitEscape (rest.length + 5))
    | some high =>
      if rest.isEmpty then .error (.fault .unitEscape 5)
      else match lowUnit? rest with
      | some low =>
        if 0xD800 ≤ high && high ≤ 0xDBFF then
          readChars start (Char.ofNat (0x10000 + (high - 0xD800) * 1024 + (low - 0xDC00)) :: chars)
            (rest.drop 6)
        else readChars start (unitChar high :: chars) rest
      | none => readChars start (unitChar high :: chars) rest
  | '\\' :: 'u' :: rest => .error (.fault .unitEscape (rest.length + 1))
  | ['\\'] => .error (.fault .openString start)
  | '\\' :: c :: rest =>
    match simpleEscape? c with
    | some e => readChars start (e :: chars) rest
    | none => .error (.fault .escape (rest.length + 2))
  | c :: rest =>
    if c.toNat < 32 then .error (.fault .controlCharacter (rest.length + 1))
    else readChars start (c :: chars) rest
termination_by cs.length
decreasing_by all_goals simp <;> omega

def spanDigits (cs : List Char) : List Char × List Char :=
  (cs.takeWhile Text.isAsciiDigit, cs.dropWhile Text.isAsciiDigit)

def digitsNat (digits : List Char) : Nat :=
  Number.digitsValue 10 (digits.map fun c => c.toNat - 48)

/-- The exponent after an `e`, if there is one. -/
def readExponent (cs : List Char) : Int × List Char × Bool :=
  match cs with
  | c :: rest =>
    if c = 'e' || c = 'E' then
      let (sign, after) : Int × List Char := match rest with
        | '-' :: r => (-1, r)
        | '+' :: r => (1, r)
        | r => (1, r)
      match spanDigits after with
      | ([], _) => (0, cs, false)
      | (digits, left) => (sign * (digitsNat digits : Nat), left, true)
    else (0, cs, false)
  | [] => (0, cs, false)

/-- A number after its sign, which stands `start` characters before the end of the text. -/
def readNumber (start : Nat) (negative : Bool) (cs : List Char) : Except Stop (Json × List Char) :=
  match spanDigits cs with
  | ([], _) => .error (.fault .noValue start)
  | (digits, rest) =>
    -- A number does not begin with a zero, unless the zero is all of it.
    let (whole, rest) :=
      if digits.head? = some '0' then (['0'], digits.drop 1 ++ rest) else (digits, rest)
    let (places, rest) : List Char × List Char := match rest with
      | '.' :: after =>
        match spanDigits after with
        | ([], _) => ([], rest)
        | (places, left) => (places, left)
      | _ => ([], rest)
    let (power, rest, scaled) := readExponent rest
    if places.isEmpty && !scaled then
      if Number.maxDigits < whole.length then .error (.literalTooLong whole.length)
      else
        let n : Int := digitsNat whole
        .ok (.int (if negative then -n else n), rest)
    else
      .ok (.real (Number.Double.ofDecimal negative (digitsNat (whole ++ places))
        (power - places.length)), rest)

def readWord (word : String) (value : Json) (cs : List Char) : Except Stop (Json × List Char) :=
  if word.toList.isPrefixOf cs then .ok (value, cs.drop word.length)
  else .error (.fault .noValue cs.length)

mutual

/-- A value of at most `fuel` characters. -/
def readValue (fuel : Nat) (cs : List Char) : Except Stop (Json × List Char) :=
  match fuel with
  | 0 => .error (.fault .noValue cs.length)
  | fuel + 1 =>
    match cs with
    | '"' :: rest => (readChars cs.length [] rest).map fun (s, left) => (.str s, left)
    | '\x7b' :: rest =>
      match skipBlanks rest with
      | '\x7d' :: left => .ok (.obj [], left)
      | left => readMembers fuel [] left
    | '[' :: rest =>
      match skipBlanks rest with
      | ']' :: left => .ok (.arr [], left)
      | left => readItems fuel [] left
    | 'n' :: _ => readWord "null" .null cs
    | 't' :: _ => readWord "true" (.bool true) cs
    | 'f' :: _ => readWord "false" (.bool false) cs
    | 'N' :: _ => readWord "NaN" (.real .undefined) cs
    | 'I' :: _ => readWord "Infinity" (.real (.infinite false)) cs
    | '-' :: 'I' :: _ => readWord "-Infinity" (.real (.infinite true)) cs
    | '-' :: rest => readNumber cs.length true rest
    | _ => readNumber cs.length false cs

def readItems (fuel : Nat) (items : List Json) (cs : List Char) :
    Except Stop (Json × List Char) :=
  match fuel with
  | 0 => .error (.fault .noValue cs.length)
  | fuel + 1 =>
    match readValue fuel cs with
    | .error e => .error e
    | .ok (v, rest) =>
      match skipBlanks rest with
      | ',' :: left => readItems fuel (v :: items) (skipBlanks left)
      | ']' :: left => .ok (.arr (v :: items).reverse, left)
      | left => .error (.fault .noComma left.length)

def readMembers (fuel : Nat) (members : List (String × Json)) (cs : List Char) :
    Except Stop (Json × List Char) :=
  match fuel with
  | 0 => .error (.fault .noKey cs.length)
  | fuel + 1 =>
    match cs with
    | '"' :: rest =>
      match readChars cs.length [] rest with
      | .error e => .error e
      | .ok (key, after) =>
        match skipBlanks after with
        | ':' :: after =>
          match readValue fuel (skipBlanks after) with
          | .error e => .error e
          | .ok (v, rest) =>
            match skipBlanks rest with
            | ',' :: left => readMembers fuel ((key, v) :: members) (skipBlanks left)
            | '\x7d' :: left => .ok (.obj (Table.ofEntries ((key, v) :: members).reverse), left)
            | left => .error (.fault .noComma left.length)
        | left => .error (.fault .noColon left.length)
    | _ => .error (.fault .noKey cs.length)

end

def read (text : String) : Except ReadError Json :=
  let cs := text.toList
  match cs with
  | '\uFEFF' :: _ => .error (malformedAt cs .byteOrderMark 0)
  | _ =>
    match readValue (2 * cs.length + 2) (skipBlanks cs) with
    | .error (.fault f left) => .error (malformedAt cs f (cs.length - left))
    | .error (.literalTooLong digits) => .error (.literalTooLong digits)
    | .ok (v, rest) =>
      match skipBlanks rest with
      | [] => .ok v
      | left => .error (malformedAt cs .extraText (cs.length - left.length))

end EscapeRoom.Json
