import EscapeRoom.Table
import EscapeRoom.Text.Cut
import EscapeRoom.Text.Letter

/-!
# Key and value fields of a line

A line may hold fields `key=value` anywhere between other words. A key is a run of word characters; a
value is a quoted text without line end, or else a run of characters that are not blank.
-/

namespace EscapeRoom

abbrev Fields := Table String String

namespace Fields

/-- The text up to the closing quote, and what follows the quote. -/
def closeQuote : List Char → Option (List Char × List Char)
  | [] => none
  | c :: rest =>
    if c = '"' then some ([], rest)
    else if c = '\n' then none
    else (closeQuote rest).map fun (inside, after) => (c :: inside, after)

def bareValue (cs : List Char) : Option (List Char × List Char) :=
  match cs.takeWhile (! Text.isBlank ·) with
  | [] => none
  | value => some (value, cs.dropWhile (! Text.isBlank ·))

/-- The value at the start of a text, a quoted one together with its quotes. -/
def valueFrom (cs : List Char) : Option (List Char × List Char) :=
  match cs with
  | '"' :: rest =>
    match closeQuote rest with
    | some (inside, after) => some ('"' :: inside ++ ['"'], after)
    | none => bareValue cs
  | _ => bareValue cs

theorem closeQuote_length {cs inside after : List Char}
    (h : closeQuote cs = some (inside, after)) : after.length < cs.length := by
  induction cs generalizing inside with
  | nil => simp [closeQuote] at h
  | cons c rest ih =>
    unfold closeQuote at h
    split at h
    · simp_all
    · split at h
      · simp at h
      · obtain ⟨⟨i, a⟩, hr, he⟩ := Option.map_eq_some_iff.1 h
        simp only [Prod.mk.injEq] at he
        have := ih (he.2 ▸ hr)
        simp only [List.length_cons]
        omega

theorem length_dropWhile_le (p : Char → Bool) (cs : List Char) :
    (cs.dropWhile p).length ≤ cs.length :=
  (List.dropWhile_sublist p).length_le

theorem bareValue_length {cs value after : List Char}
    (h : bareValue cs = some (value, after)) : after.length ≤ cs.length := by
  unfold bareValue at h
  split at h
  · simp at h
  · simp only [Option.some.injEq, Prod.mk.injEq] at h
    exact h.2 ▸ length_dropWhile_le _ cs

theorem valueFrom_length {cs value after : List Char}
    (h : valueFrom cs = some (value, after)) : after.length ≤ cs.length := by
  unfold valueFrom at h
  split at h
  · rename_i rest
    split at h
    · rename_i i a hc
      simp only [Option.some.injEq, Prod.mk.injEq] at h
      have := closeQuote_length hc
      rw [← h.2, List.length_cons]
      omega
    · exact bareValue_length h
  · exact bareValue_length h

/-- The keys and values of a text in order, values as they are written. -/
def scanChars (cs : List Char) : List (List Char × List Char) :=
  match cs with
  | [] => []
  | c :: rest =>
    if Text.isWordChar c then
      match _ha : rest.dropWhile Text.isWordChar with
      | '=' :: after =>
        match _hv : valueFrom after with
        | some (value, left) => (c :: rest.takeWhile Text.isWordChar, value) :: scanChars left
        | none => scanChars after
      | after => scanChars after
    else scanChars rest
termination_by cs.length
decreasing_by
  · have h₁ := length_dropWhile_le Text.isWordChar rest
    have h₂ := valueFrom_length _hv
    rw [_ha, List.length_cons] at h₁
    simp only [List.length_cons]
    omega
  · have h₁ := length_dropWhile_le Text.isWordChar rest
    rw [_ha, List.length_cons] at h₁
    simp only [List.length_cons]
    omega
  · have h₁ := length_dropWhile_le Text.isWordChar rest
    rw [_ha] at h₁
    simp only [List.length_cons]
    omega
  · simp

def unquoteChars (cs : List Char) : List Char :=
  match Text.trimChars cs with
  | '"' :: rest => if rest.getLast? = some '"' then rest.dropLast else '"' :: rest
  | trimmed => trimmed

def unquote (s : String) : String :=
  String.ofList (unquoteChars s.toList)

/-- The fields of a line; the last value of a key counts. -/
def scan (line : String) : Fields :=
  Table.ofEntries <| (scanChars line.toList).map fun (key, value) =>
    (String.ofList key, String.ofList (unquoteChars value))

/-- A line up to the first semicolon, without the blanks at its end. -/
def stripComment (line : String) : String :=
  String.ofList (Text.trimEnd (line.toList.takeWhile (· != ';')))

/-- How many characters of the text lead up to a value behind `\=\`: a backslash and any number of
`s` on either side of the equals sign, then a quoted text or a backslash with an `S` after it. -/
def escapedValueOffset? (cs : List Char) : Option Nat :=
  match cs with
  | '\\' :: rest =>
    let first := rest.takeWhile (· == 's')
    match rest.dropWhile (· == 's') with
    | '=' :: '\\' :: more =>
      let second := more.takeWhile (· == 's')
      let offset := first.length + second.length + 3
      match more.dropWhile (· == 's') with
      | '"' :: inside => if (closeQuote inside).isSome then some offset else none
      | '\\' :: 'S' :: _ => some offset
      | _ => none
    | _ => none
  | _ => none

/-- The position of the first value behind an escaped equals sign after `key`, where `before` holds
the characters that precede the text, nearest first. A key directly behind `\w` does not count. -/
def escapedValueFrom (key : List Char) (before : List Char) : List Char → Option Nat
  | [] => none
  | c :: rest =>
    let here :=
      if key.isPrefixOf (c :: rest) && before.take 2 != ['w', '\\'] then
        (escapedValueOffset? ((c :: rest).drop key.length)).map (before.length + key.length + ·)
      else none
    match here with
    | some position => some position
    | none => escapedValueFrom key (c :: before) rest

/-- The column of the value of `key` where it follows an escaped equals sign, and otherwise the column
of the key. -/
def columnOfValue (line key : String) : Nat :=
  if key.isEmpty then 1
  else match escapedValueFrom key.toList [] line.toList with
    | some position => position + 1
    | none => Text.columnOf line key

end Fields

end EscapeRoom
