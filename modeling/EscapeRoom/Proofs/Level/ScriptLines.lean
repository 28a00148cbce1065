import EscapeRoom.Proofs.Level.Records

/-!
# What script lines say

A line of a script says an operation by its first word, whose case does not matter, and its operands. A
script counts up to a line `END`. Its code has one instruction for each of these lines that is not blank,
and the instruction that ends it.
-/

namespace EscapeRoom

open Level

variable {name : String} {names : List String}

def Script.opOf (line : Nat × String) : Option String :=
  (Text.words line.2).head?.map Text.upper

def Script.liveLines (lines : List (Nat × String)) : List (Nat × String) :=
  lines.takeWhile fun line => decide (Script.opOf line ≠ some "END")

theorem Script.liveLines_of_end {line : Nat × String} (h : opOf line = some "END")
    (rest : List (Nat × String)) : liveLines (line :: rest) = [] := by
  simp [liveLines, h]

theorem Script.liveLines_cons {line : Nat × String} (h : opOf line ≠ some "END")
    (rest : List (Nat × String)) : liveLines (line :: rest) = line :: liveLines rest := by
  simp [liveLines, h]

/-- What the words of a line can be read as, if `Said` tells how words say an operation. -/
inductive ScriptLine.Says {α : Type} (Said : List String → α → Prop) :
    List String → ScriptLine α → Prop
  | blank : Says Said [] .blank
  | stop {op : String} {rest : List String} : Text.upper op = "END" → Says Said (op :: rest) .stop
  | fault {words : List String} (cause : Cause) (column : Nat) : Says Said words (.fault cause column)
  | step {op : String} {rest : List String} {t : α} : Text.upper op ≠ "END" → Said (op :: rest) t →
      Says Said (op :: rest) (.step t)

section

variable {α : Type} {Said : List String → α → Prop} {op : String} (hend : Text.upper op ≠ "END")
include hend

theorem ScriptLine.says_unary {make : String → α} {cause : Cause} {column : Nat}
    {operands : List String} (h : ∀ a rest, Said (op :: a :: rest) (make a)) :
    Says Said (op :: operands) (unary make (.fault cause column) operands) := by
  cases operands with
  | nil => exact .fault cause column
  | cons a rest => exact .step hend (h a rest)

theorem ScriptLine.says_binary {make : String → String → α} {cause : Cause} {column : Nat}
    {operands : List String} (h : ∀ a b rest, Said (op :: a :: b :: rest) (make a b)) :
    Says Said (op :: operands) (binary make (.fault cause column) operands) := by
  rcases operands with _ | ⟨a, _ | ⟨b, rest⟩⟩
  · exact .fault cause column
  · exact .fault cause column
  · exact .step hend (h a b rest)

end

namespace Condition

/-- How the words of a line say a test. What follows its operands does not matter. -/
inductive Said : List String → Condition → Prop
  | always {op : String} {rest : List String} : Text.upper op = "TRUE" → Said (op :: rest) .always
  | flagSet {op flag : String} {rest : List String} : Text.upper op = "FLAGSET" →
      Said (op :: flag :: rest) (.flagSet flag)
  | flagClear {op flag : String} {rest : List String} : Text.upper op = "FLAGCLR" →
      Said (op :: flag :: rest) (.flagClear flag)
  | has {op item : String} {rest : List String} : Text.upper op = "HAS" →
      Said (op :: item :: rest) (.has item)
  | varEquals {op var value : String} {rest : List String} : Text.upper op = "VAREQ" →
      Said (op :: var :: value :: rest) (.varEquals var value)

theorem says_readLine (raw : String) : ScriptLine.Says Said (Text.words raw) (readLine raw) := by
  unfold readLine
  cases Text.words raw with
  | nil => exact .blank
  | cons op operands =>
    dsimp only
    by_cases hend : Text.upper op = "END"
    · rw [if_pos hend]
      exact .stop hend
    rw [if_neg hend]
    by_cases ht : Text.upper op = "TRUE"
    · rw [if_pos ht]
      exact .step hend (.always ht)
    rw [if_neg ht]
    by_cases hset : Text.upper op = "FLAGSET"
    · rw [if_pos hset]
      exact ScriptLine.says_unary hend fun _ _ => .flagSet hset
    rw [if_neg hset]
    by_cases hc : Text.upper op = "FLAGCLR"
    · rw [if_pos hc]
      exact ScriptLine.says_unary hend fun _ _ => .flagClear hc
    rw [if_neg hc]
    by_cases hhas : Text.upper op = "HAS"
    · rw [if_pos hhas]
      exact ScriptLine.says_unary hend fun _ _ => .has hhas
    rw [if_neg hhas]
    by_cases hvar : Text.upper op = "VAREQ"
    · rw [if_pos hvar]
      exact ScriptLine.says_binary hend fun _ _ _ => .varEquals hvar
    rw [if_neg hvar]
    exact .fault _ _

theorem readLine_of_said {raw : String} {t : Condition} (h : Said (Text.words raw) t) :
    readLine raw = .step t := by
  unfold readLine
  generalize Text.words raw = words at h
  cases h <;> rename_i hop <;> dsimp only <;> rw [hop] <;> rfl

end Condition

namespace Action

/-- How the words of a line say a step. What follows its operands does not matter. -/
inductive Said : List String → Action → Prop
  | showMessage {op message : String} {rest : List String} : Text.upper op = "MSG" →
      Said (op :: message :: rest) (.showMessage message)
  | setFlag {op flag : String} {rest : List String} : Text.upper op = "SETFLAG" →
      Said (op :: flag :: rest) (.setFlag flag)
  | clearFlag {op flag : String} {rest : List String} : Text.upper op = "CLRFLAG" →
      Said (op :: flag :: rest) (.clearFlag flag)
  | give {op item : String} {rest : List String} : Text.upper op = "GIVE" →
      Said (op :: item :: rest) (.give item)
  | take {op item : String} {rest : List String} : Text.upper op = "TAKE" →
      Said (op :: item :: rest) (.take item)
  | setVar {op var value : String} {rest : List String} : Text.upper op = "SETVAR" →
      Said (op :: var :: value :: rest) (.setVar var value)
  | playSound {op sound : String} {rest : List String} : Text.upper op = "SFX" →
      Said (op :: sound :: rest) (.playSound sound)
  | transition {op room spawn : String} {rest : List String} : Text.upper op = "TRANSITION" →
      Said (op :: room :: spawn :: rest) (.transition room spawn)

theorem says_readLine (raw : String) : ScriptLine.Says Said (Text.words raw) (readLine raw) := by
  unfold readLine
  cases Text.words raw with
  | nil => exact .blank
  | cons op operands =>
    dsimp only
    by_cases hend : Text.upper op = "END"
    · rw [if_pos hend]
      exact .stop hend
    rw [if_neg hend]
    by_cases hmsg : Text.upper op = "MSG"
    · rw [if_pos hmsg]
      exact ScriptLine.says_unary hend fun _ _ => .showMessage hmsg
    rw [if_neg hmsg]
    by_cases hset : Text.upper op = "SETFLAG"
    · rw [if_pos hset]
      exact ScriptLine.says_unary hend fun _ _ => .setFlag hset
    rw [if_neg hset]
    by_cases hc : Text.upper op = "CLRFLAG"
    · rw [if_pos hc]
      exact ScriptLine.says_unary hend fun _ _ => .clearFlag hc
    rw [if_neg hc]
    by_cases hg : Text.upper op = "GIVE"
    · rw [if_pos hg]
      exact ScriptLine.says_unary hend fun _ _ => .give hg
    rw [if_neg hg]
    by_cases ht : Text.upper op = "TAKE"
    · rw [if_pos ht]
      exact ScriptLine.says_unary hend fun _ _ => .take ht
    rw [if_neg ht]
    by_cases hvar : Text.upper op = "SETVAR"
    · rw [if_pos hvar]
      exact ScriptLine.says_binary hend fun _ _ _ => .setVar hvar
    rw [if_neg hvar]
    by_cases hs : Text.upper op = "SFX"
    · rw [if_pos hs]
      exact ScriptLine.says_unary hend fun _ _ => .playSound hs
    rw [if_neg hs]
    by_cases htr : Text.upper op = "TRANSITION"
    · rw [if_pos htr]
      exact ScriptLine.says_binary hend fun _ _ _ => .transition htr
    rw [if_neg htr]
    exact .fault _ _

theorem readLine_of_said {raw : String} {t : Action} (h : Said (Text.words raw) t) :
    readLine raw = .step t := by
  unfold readLine
  generalize Text.words raw = words at h
  cases h <;> rename_i hop <;> dsimp only <;> rw [hop] <;> rfl

end Action

theorem index_unique (hn : names.Nodup) {i j : Nat} (hi : names[i]? = some name) (hj : names[j]? = some name) : i = j :=
  ((numbered_iff_of_nodup hn).mpr hi).unique ((numbered_iff_of_nodup hn).mpr hj)

theorem index_lt {i : Nat} (hi : names[i]? = some name) : i < names.length :=
  (List.getElem?_eq_some_iff.mp hi).1

theorem resolveId_number_yields (hn : names.Nodup) {kind : IdKind} {line i : Nat} :
    (resolveId (Ids.number names) kind name line).Yields i ↔ names[i]? = some name := by
  rw [resolveId_yields, Ids.get?_number, numbered_iff_of_nodup hn]

theorem byteValue_yields {text : String} {cause : Cause} {line column : Nat} {b : UInt8}
    (h : (byteValue text cause line column).Yields b) :
    ∃ n, Number.parseLiteral .marked text = .ok n ∧ b = byteOf n := by
  unfold byteValue at h
  split at h
  · rename_i n hn
    rw [Report.yields_pure] at h
    exact ⟨n, hn, h.symm⟩
  · simp at h

/-! The code of a script -/

/-- The code of the lines that count, if `Code` tells which instruction an operation can have. -/
inductive Script.Compiles {α : Type} (Said : List String → α → Prop) (Code : α → Instruction → Prop) :
    List (Nat × String) → Bytes → Prop
  | nil : Compiles Said Code [] Instruction.stop.bytes
  | blank {number : Nat} {raw : String} {rest : List (Nat × String)} {code : Bytes} :
      Text.words raw = [] → Compiles Said Code rest code → Compiles Said Code ((number, raw) :: rest) code
  | step {number : Nat} {raw : String} {rest : List (Nat × String)} {t : α} {i : Instruction}
      {code : Bytes} : Said (Text.words raw) t → Code t i → Compiles Said Code rest code →
      Compiles Said Code ((number, raw) :: rest) (i.bytes ++ code)

theorem Script.compiles_of_yields {α : Type} {Said : List String → α → Prop}
    {readLine : String → ScriptLine α} {compile : Nat → String → α → Compiling Instruction}
    (hr : ∀ raw, ScriptLine.Says Said (Text.words raw) (readLine raw)) {lines : List (Nat × String)}
    {code : Bytes} (h : (compileLines readLine compile lines).Yields code) :
    Compiles Said (fun t i => ∃ line raw, (compile line raw t).Yields i) (liveLines lines) code := by
  induction lines generalizing code with
  | nil =>
    rw [compileLines, Report.yields_pure] at h
    exact h ▸ .nil
  | cons line rest ih =>
    rcases line with ⟨number, raw⟩
    have hraw := hr raw
    rw [compileLines] at h
    generalize readLine raw = said at h hraw
    generalize hw : Text.words raw = words at hraw
    cases hraw with
    | blank =>
      have hl : opOf (number, raw) ≠ some "END" := by simp [opOf, hw]
      rw [liveLines_cons hl]
      exact .blank hw (ih h)
    | stop hend =>
      have hop : opOf (number, raw) = some "END" := by simp [opOf, hw, hend]
      rw [Report.yields_pure] at h
      rw [liveLines_of_end hop]
      exact h ▸ .nil
    | fault cause column => simp at h
    | step hop hs =>
      have hl : opOf (number, raw) ≠ some "END" := by simp [opOf, hw, hop]
      simp only [Report.yields_bind, Report.yields_pure] at h
      obtain ⟨i, hi, more, hm, rfl⟩ := h
      rw [liveLines_cons hl]
      exact .step (hw ▸ hs) ⟨number, raw, hi⟩ (ih hm)

end EscapeRoom
