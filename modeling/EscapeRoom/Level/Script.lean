import EscapeRoom.Bytes
import EscapeRoom.Level.Issue
import EscapeRoom.Text.Case

/-!
# Scripts

A script is a list of lines, each an operation with its operands. Conditions are tests that all have to
hold; actions are steps that are taken in order. A line `END` ends a script early. In its compiled form
an operation takes three bytes, and three zero bytes end the script.
-/

namespace EscapeRoom

inductive Condition where
  | always
  | flagSet (flag : String)
  | flagClear (flag : String)
  | has (item : String)
  | varEquals (var value : String)
  deriving Repr, DecidableEq

inductive Action where
  | showMessage (message : String)
  | setFlag (flag : String)
  | clearFlag (flag : String)
  | give (item : String)
  | take (item : String)
  | setVar (var value : String)
  | playSound (sound : String)
  | transition (room spawn : String)
  deriving Repr, DecidableEq

inductive ScriptLine (α : Type) where
  | blank
  | stop
  | fault (cause : Level.Cause) (column : Nat)
  | step (operation : α)
  deriving Repr, DecidableEq

namespace ScriptLine

def unary {α : Type} (make : String → α) (missing : ScriptLine α) : List String → ScriptLine α
  | a :: _ => .step (make a)
  | _ => missing

def binary {α : Type} (make : String → String → α) (missing : ScriptLine α) :
    List String → ScriptLine α
  | a :: b :: _ => .step (make a b)
  | _ => missing

end ScriptLine

def Condition.readLine (raw : String) : ScriptLine Condition :=
  match Text.words raw with
  | [] => .blank
  | head :: operands =>
    let op := Text.upper head
    let missing (operand : Level.Operand) : ScriptLine Condition :=
      .fault (.operandMissing .cond op operand) (Text.columnOf raw op)
    if op = "END" then .stop
    else if op = "TRUE" then .step .always
    else if op = "FLAGSET" then .unary .flagSet (missing .flag) operands
    else if op = "FLAGCLR" then .unary .flagClear (missing .flag) operands
    else if op = "HAS" then .unary .has (missing .item) operands
    else if op = "VAREQ" then .binary .varEquals (missing .varAndValue) operands
    else .fault (.unknownOp .cond op) (Text.columnOf raw head)

def Action.readLine (raw : String) : ScriptLine Action :=
  match Text.words raw with
  | [] => .blank
  | head :: operands =>
    let op := Text.upper head
    let missing (operand : Level.Operand) : ScriptLine Action :=
      .fault (.operandMissing .act op operand) (Text.columnOf raw op)
    if op = "END" then .stop
    else if op = "MSG" then .unary .showMessage (missing .message) operands
    else if op = "SETFLAG" then .unary .setFlag (missing .flag) operands
    else if op = "CLRFLAG" then .unary .clearFlag (missing .flag) operands
    else if op = "GIVE" then .unary .give (missing .item) operands
    else if op = "TAKE" then .unary .take (missing .item) operands
    else if op = "SETVAR" then .binary .setVar (missing .varAndValue) operands
    else if op = "SFX" then .unary .playSound (missing .sound) operands
    else if op = "TRANSITION" then .binary .transition (missing .roomAndSpawn) operands
    else .fault (.unknownOp .act op) (Text.columnOf raw head)

structure Ids where
  flags : Table String Nat := []
  vars : Table String Nat := []
  items : Table String Nat := []
  messages : Table String Nat := []
  rooms : Table String Nat := []
  spawns : Table String (Table String Nat) := []
  deriving Repr, DecidableEq

/-- Names numbered from zero in their order; a repeated name has its last number. -/
def Ids.number (names : List String) : Table String Nat :=
  Table.ofEntries names.zipIdx

def Ids.spawn? (ids : Ids) (room spawn : String) : Option Nat :=
  (ids.spawns.get? room).bind fun spawns => Table.get? spawns spawn

structure Instruction where
  op : UInt8
  a : UInt8 := 0
  b : UInt8 := 0
  deriving Repr, DecidableEq

def Instruction.bytes (i : Instruction) : Bytes :=
  [i.op, i.a, i.b]

def Instruction.stop : Instruction :=
  { op := 0 }

namespace Level

def resolveId (table : Table String Nat) (kind : IdKind) (name : String) (line : Nat) :
    Compiling Nat :=
  match Table.get? table name with
  | some id => pure id
  | none => do
    Report.report { cause := .unknownId kind name, line }
    return 0

def byteValue (text : String) (cause : Cause) (line column : Nat) : Compiling UInt8 :=
  match Number.parseLiteral .marked text with
  | .ok n => pure (byteOf n)
  | .error _ => do
    Report.report { cause, line, column }
    return 0

end Level

open Level in
def Condition.compile (ids : Ids) (line : Nat) (raw : String) : Condition → Compiling Instruction
  | .always => pure { op := 1 }
  | .flagSet flag => do
    return { op := 2, a := byteOf (← resolveId ids.flags .flag flag line) }
  | .flagClear flag => do
    return { op := 3, a := byteOf (← resolveId ids.flags .flag flag line) }
  | .has item => do
    return { op := 4, a := byteOf (← resolveId ids.items .item item line) }
  | .varEquals var value => do
    let a ← resolveId ids.vars .var var line
    let b ← byteValue value (.badValue .cond "VAREQ" value) line (Text.columnOf raw value)
    return { op := 5, a := byteOf a, b }

open Level in
def Action.compile (ids : Ids) (line : Nat) (raw : String) : Action → Compiling Instruction
  | .showMessage message => do
    return { op := 1, a := byteOf (← resolveId ids.messages .msg message line) }
  | .setFlag flag => do
    return { op := 2, a := byteOf (← resolveId ids.flags .flag flag line) }
  | .clearFlag flag => do
    return { op := 3, a := byteOf (← resolveId ids.flags .flag flag line) }
  | .give item => do
    return { op := 4, a := byteOf (← resolveId ids.items .item item line) }
  | .take item => do
    return { op := 5, a := byteOf (← resolveId ids.items .item item line) }
  | .setVar var value => do
    let a ← resolveId ids.vars .var var line
    let b ← byteValue value (.badValue .act "SETVAR" value) line (Text.columnOf raw value)
    return { op := 6, a := byteOf a, b }
  | .playSound sound => do
    return { op := 7
             a := ← byteValue sound (.badSound "SFX" sound) line (Text.columnOf raw sound) }
  | .transition room spawn => do
    let a ← resolveId ids.rooms .room room line
    match ids.spawn? room spawn with
    | some id => return { op := 8, a := byteOf a, b := byteOf id }
    | none =>
      Report.report
        { cause := .transitionSpawn spawn room, line, column := Text.columnOf raw spawn }
      return { op := 8, a := byteOf a }

namespace Script

variable {α : Type}

def compileLines (readLine : String → ScriptLine α)
    (compile : Nat → String → α → Level.Compiling Instruction) :
    List (Nat × String) → Level.Compiling Bytes
  | [] => pure Instruction.stop.bytes
  | (line, raw) :: rest =>
    match readLine raw with
    | .blank => compileLines readLine compile rest
    | .stop => pure Instruction.stop.bytes
    | .fault cause column => do
      Report.report { cause, line, column }
      compileLines readLine compile rest
    | .step operation => do
      let i ← compile line raw operation
      return i.bytes ++ (← compileLines readLine compile rest)

def conditionCode (ids : Ids) (lines : List (Nat × String)) : Level.Compiling Bytes :=
  compileLines Condition.readLine (Condition.compile ids) lines

def actionCode (ids : Ids) (lines : List (Nat × String)) : Level.Compiling Bytes :=
  compileLines Action.readLine (Action.compile ids) lines

end Script

end EscapeRoom
