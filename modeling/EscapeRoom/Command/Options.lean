import EscapeRoom.Number.RealText
import EscapeRoom.Table
import EscapeRoom.Text.Cut
import EscapeRoom.Text.Quoted

/-!
# Options of commands

A command takes options, each with or without a value, and at most one argument beside them. The name
of an option may be cut short as long as only one option begins with it; a value may be joined to a
long name by an equals sign, and to a short one directly. Two dashes end the options.
-/

namespace EscapeRoom

inductive OptionKind where
  | help
  | switch
  | value
  | number
  deriving Repr, DecidableEq

structure OptionSpec where
  /-- All names of the option; the last one is its key. -/
  names : List String
  kind : OptionKind := .value
  deriving Repr, DecidableEq

structure ArgumentSpec where
  name : String
  required : Bool
  deriving Repr, DecidableEq

structure Usage where
  program : String
  options : List OptionSpec
  argument : Option ArgumentSpec := none
  deriving Repr, DecidableEq

inductive UsageError where
  | ambiguous (word : String) (candidates : List String)
  | valueMissing (option : OptionSpec)
  | valueIgnored (option : OptionSpec) (value : String)
  | notNumber (option : OptionSpec) (value : String)
  | argumentMissing (name : String)
  | unrecognized (words : List String)
  deriving Repr, DecidableEq

def OptionSpec.title (o : OptionSpec) : String :=
  "argument " ++ Text.join "/" o.names ++ ": "

def UsageError.message : UsageError → String
  | .ambiguous word candidates =>
    "ambiguous option: " ++ word ++ " could match " ++ Text.join ", " candidates
  | .valueMissing option => option.title ++ "expected one argument"
  | .valueIgnored option value => option.title ++ "ignored explicit argument " ++ Text.quoted value
  | .notNumber option value => option.title ++ "invalid float value: " ++ Text.quoted value
  | .argumentMissing name => "the following arguments are required: " ++ name
  | .unrecognized words => "unrecognized arguments: " ++ Text.join " " words

structure Arguments where
  argument : Option String := none
  /-- The values of options by their last names; a switch that is on has an empty one. -/
  values : Table String String := []
  deriving Repr, DecidableEq

namespace Arguments

def isOn (a : Arguments) (name : String) : Bool :=
  Table.has a.values name

def value (a : Arguments) (name default : String) : String :=
  Table.getD a.values name default

end Arguments

inductive Word where
  | plain (text : String)
  | dashes
  | option (spec : OptionSpec) (name : String) (value : Option String)
  | unknown (text : String)
  deriving Repr, DecidableEq

namespace Word

def isOption : Word → Bool
  | .option .. => true
  | .unknown _ => true
  | _ => false

end Word

namespace Usage

def names (u : Usage) : List (String × OptionSpec) :=
  ({ names := ["-h", "--help"], kind := .help : OptionSpec } :: u.options).flatMap fun o =>
    o.names.map (·, o)

def named? (u : Usage) (name : String) : Option OptionSpec :=
  (u.names.find? (·.1 = name)).map (·.2)

def isNegativeNumber (word : String) : Bool :=
  match word.toList with
  | '-' :: rest =>
    let whole := rest.takeWhile Text.isDigit
    match rest.dropWhile Text.isDigit with
    | [] => !whole.isEmpty
    | '.' :: part => !part.isEmpty && part.all Text.isDigit
    | _ => false
  | _ => false

def candidates (u : Usage) (word : String) : List (String × OptionSpec × Option String) :=
  if Text.startsWith word "--" then
    let (start, value) := match Text.cut '=' word with
      | some (start, value) => (start, some value)
      | none => (word, none)
    u.names.filterMap fun (name, o) =>
      if Text.startsWith name start then some (name, o, value) else none
  else
    let (short, value) := (Text.takeChars 2 word, Text.dropChars 2 word)
    u.names.filterMap fun (name, o) =>
      if name = short then some (name, o, some value)
      else if Text.startsWith name word then some (name, o, none)
      else none

def classify (u : Usage) (word : String) : Except UsageError Word :=
  if !Text.startsWith word "-" || word = "-" then .ok (.plain word)
  else
    let named := match u.named? word with
      | some o => some (word, o, none)
      | none => do
        let (name, value) ← Text.cut '=' word
        let o ← u.named? name
        return (name, o, some value)
    match named.toList, u.candidates word with
    | (name, o, value) :: _, _ => .ok (.option o name value)
    | [], [(name, o, value)] => .ok (.option o name value)
    | [], [] =>
      .ok (if isNegativeNumber word || Text.contains word ' ' then .plain word else .unknown word)
    | [], found => .error (.ambiguous word (found.map (·.1)))

def classifyAll (u : Usage) : List String → Except UsageError (List Word)
  | [] => .ok []
  | word :: rest =>
    if word = "--" then .ok (.dashes :: rest.map .plain)
    else do return (← u.classify word) :: (← classifyAll u rest)

structure Progress where
  arguments : Arguments := {}
  argumentDone : Bool
  unrecognized : List String := []

inductive Stop where
  | help
  | error (e : UsageError)
  deriving Repr, DecidableEq

def setOption (p : Progress) (o : OptionSpec) (value : String) : Except Stop Progress :=
  if o.kind = .number && !Number.isRealText value then .error (.error (.notNumber o value))
  else
    .ok { p with arguments := { p.arguments with
            values := p.arguments.values.put (o.names.getLast?.getD "") value } }

/-- An option whose value is joined to it. A switch with a short name may be followed by more such
names. -/
def setJoined (u : Usage) (p : Progress) (o : OptionSpec) (name value : String) (fuel : Nat) :
    Except Stop (Progress × Option OptionSpec) :=
  match o.kind, fuel with
  | .value, _ | .number, _ => do return (← setOption p o value, none)
  | _, 0 => .error (.error (.valueIgnored o value))
  | kind, fuel + 1 =>
    if Text.startsWith name "--" || value.isEmpty then .error (.error (.valueIgnored o value))
    else
      let next := "-" ++ Text.takeChars 1 value
      match u.named? next with
      | none => .error (.error (.valueIgnored o value))
      | some o' =>
        if kind = .help then .error .help
        else do
          let p ← setOption p o ""
          let rest := Text.dropChars 1 value
          if rest.isEmpty then return (p, some o') else setJoined u p o' next rest fuel

def takeArgument (spec : ArgumentSpec) (words : List Word) : Option (Option String × List Word) :=
  match words.dropWhile (· == .dashes) with
  | .plain text :: rest => some (some text, rest.dropWhile (· == .dashes))
  | rest => if spec.required then none else some (none, rest)

/-- The argument read from the words at hand, if it has not been read yet and can be. -/
def readArgument (u : Usage) (p : Progress) (words : List Word) : Progress × List Word :=
  match u.argument with
  | none => (p, words)
  | some spec =>
    if p.argumentDone then (p, words)
    else match takeArgument spec words with
      | none => (p, words)
      | some (argument, rest) =>
        ({ p with argumentDone := true, arguments := { p.arguments with argument } }, rest)

def wordText : Word → String
  | .plain text => text
  | .dashes => "--"
  | .option _ name _ => name
  | .unknown text => text

/-- Reads all words; `fuel` bounds their number. -/
def readWords (u : Usage) (p : Progress) (fuel : Nat) (words : List Word) : Except Stop Progress :=
  match fuel with
  | 0 => .ok p
  | fuel + 1 =>
    match words with
    | .unknown text :: rest =>
      readWords u { p with unrecognized := p.unrecognized ++ [text] } fuel rest
    | .option o name value :: rest => do
      let (p, open?) ← match value with
        | some value => setJoined u p o name value value.length
        | none => pure (p, some o)
      match open? with
      | none => readWords u p fuel rest
      | some o =>
        match o.kind with
        | .help => .error .help
        | .switch => readWords u (← setOption p o "") fuel rest
        | _ =>
          match rest with
          | .plain text :: rest => readWords u (← setOption p o text) fuel rest
          | _ => .error (.error (.valueMissing o))
    | words =>
      let (p, rest) := u.readArgument p words
      if rest.length < words.length then readWords u p fuel rest
      else
        let (extra, rest) := words.span (! ·.isOption)
        let p := { p with unrecognized := p.unrecognized ++ extra.map wordText }
        if rest.isEmpty then .ok p else readWords u p fuel rest

def read (u : Usage) (words : List String) : Except Stop Arguments := do
  let classified ← (u.classifyAll words).mapError Stop.error
  let p ← u.readWords { argumentDone := u.argument.isNone } (2 * words.length + 2) classified
  match u.argument with
  | some spec =>
    if spec.required && p.arguments.argument.isNone then throw (.error (.argumentMissing spec.name))
  | none => pure ()
  if !p.unrecognized.isEmpty then throw (.error (.unrecognized p.unrecognized))
  return p.arguments

end Usage

end EscapeRoom
