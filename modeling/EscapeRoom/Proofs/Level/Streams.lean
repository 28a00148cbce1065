import EscapeRoom.Level.Blob
import EscapeRoom.Proofs.CleanRuns
import EscapeRoom.Proofs.Numbering
import EscapeRoom.Proofs.Sections

/-!
# Streams of script code

The code of scripts is laid out one after the other. The offset noted for a script is where its code
stands in the stream, and only the first script begins where the scripts begin.
-/

namespace EscapeRoom

open Report

theorem Bytes.HoldsAt.append {b p : Bytes} {o : Nat} (h : b.HoldsAt o p) (q : Bytes) :
    Bytes.HoldsAt (b ++ q) o p := by
  obtain ⟨before, after, rfl, rfl⟩ := h
  exact ⟨before, after ++ q, by simp, rfl⟩

namespace Script

variable {α : Type} {readLine : String → ScriptLine α}
  {compile : Nat → String → α → Level.Compiling Instruction}

theorem three_le_length_of_yields {lines : List (Nat × String)} {code : Bytes}
    (h : (compileLines readLine compile lines).Yields code) : 3 ≤ code.length := by
  induction lines generalizing code with
  | nil =>
    simp only [compileLines, yields_pure] at h
    exact h ▸ Nat.le_refl 3
  | cons line rest ih =>
    rcases line with ⟨number, raw⟩
    unfold compileLines at h
    split at h
    · exact ih h
    · rw [yields_pure] at h
      exact h ▸ Nat.le_refl 3
    · simp at h
    · simp only [yields_bind, yields_pure] at h
      obtain ⟨i, _, more, hm, rfl⟩ := h
      have := ih hm
      rw [List.length_append]
      omega

end Script

namespace Level

variable {level : Level} {name : String} {offset : Nat}

/-- Scripts laid out one after the other behind what a stream begins with. -/
structure LaidOut (base : Stream) (Code : Script → Bytes → Prop) (scripts : Table String Script)
    (s : Stream) : Prop where
  extends_base : ∃ more, s.code = base.code ++ more ∧ (more = [] ↔ scripts = [])
  other : ∀ name, name ∉ scripts.keys → s.offsets.get? name = base.offsets.get? name
  script : ∀ name script, (name, script) ∈ scripts →
    ∃ offset code, s.offsets.get? name = some offset ∧ Code script code ∧
      s.code.HoldsAt offset code ∧ base.code.length ≤ offset ∧
      (offset = base.code.length ↔ scripts.keys.head? = some name)

variable {base s : Stream} {Code : Script → Bytes → Prop} {scripts : Table String Script}

theorem laidOut_nil (base : Stream) (Code : Script → Bytes → Prop) : LaidOut base Code [] base :=
  ⟨⟨[], by simp⟩, fun _ _ => rfl, by simp⟩

theorem LaidOut.add (h : LaidOut base Code scripts s) {script : Script} {code : Bytes}
    (hn : name ∉ scripts.keys) (hc : Code script code) (hl : 0 < code.length) :
    LaidOut base Code (scripts ++ [(name, script)]) (s.add name code) := by
  obtain ⟨more, hm, hem⟩ := h.extends_base
  have hk : (scripts ++ [(name, script)]).keys = scripts.keys ++ [name] := by simp [Table.keys]
  constructor
  · have hne : code ≠ [] := List.ne_nil_of_length_pos hl
    exact ⟨more ++ code, by simp [Stream.add, hm], by simp [hne]⟩
  · intro other ho
    rw [hk, List.mem_append, List.mem_singleton, not_or] at ho
    rw [Stream.add, Table.get?_put, if_neg (Ne.symm ho.2)]
    exact h.other other ho.1
  · intro other script' hmem
    rw [hk]
    rcases List.mem_append.mp hmem with hold | hnew
    · obtain ⟨offset, code', ho, hco, hat, hle, hf⟩ := h.script other script' hold
      have hkey : other ∈ scripts.keys := List.mem_map.mpr ⟨_, hold, rfl⟩
      have hne : name ≠ other := fun he => hn (he ▸ hkey)
      refine ⟨offset, code', ?_, hco, hat.append code, hle, ?_⟩
      · rw [Stream.add, Table.get?_put, if_neg hne]
        exact ho
      · rw [hf, List.head?_append_of_ne_nil _ (List.ne_nil_of_mem hkey)]
    · rw [List.mem_singleton, Prod.mk.injEq] at hnew
      rcases hnew with ⟨rfl, rfl⟩
      refine ⟨s.code.length, code, by simp [Stream.add, Table.get?_put], hc,
        ⟨s.code, [], by simp [Stream.add], rfl⟩, by simp [hm], ?_⟩
      -- The new script is the first one exactly if nothing has been laid out yet.
      rw [hm, List.length_append, Nat.add_eq_left, List.length_eq_zero_iff]
      rw [hem]
      cases scripts with
      | nil => simp [Table.keys]
      | cons e rest =>
        rw [Table.keys_cons, List.mem_cons, not_or] at hn
        simp [Ne.symm hn.1]

theorem laidOut_of_foldlM {code : Script → Compiling Bytes}
    (hn : scripts.keys.Nodup) (hl : ∀ script bytes, (code script).Yields bytes → 3 ≤ bytes.length)
    (h : (scripts.foldlM (fun (s : Stream) (e : String × Script) => do
      return s.add e.1 (← code e.2)) base).Yields s) :
    LaidOut base (fun script bytes => (code script).Yields bytes) scripts s := by
  refine Report.Yields.foldlM_induction
    (P := LaidOut base fun script bytes => (code script).Yields bytes) h (laidOut_nil base _) ?_
  rintro done ⟨name, script⟩ rest s s' hsp hs hst
  simp only [yields_bind, yields_pure] at hst
  obtain ⟨bytes, hb, rfl⟩ := hst
  have hlen := hl script bytes hb
  refine hs.add (fun hmem => ?_) hb (by omega)
  rw [hsp, Table.keys, List.map_append, List.map_cons] at hn
  exact (List.nodup_append.mp hn).2.2 name hmem name List.mem_cons_self rfl

/-- A fold that adds the code of one script after the other has all of it in the stream. -/
theorem code_of_foldlM (code : Script → Compiling Bytes)
    (h : (scripts.foldlM (fun (s : Stream) (e : String × Script) => do
      return s.add e.1 (← code e.2)) base).Yields s) :
    ∃ codes, List.Forall₂ (fun script bytes => (code script).Yields bytes) scripts.values codes ∧
      s.code = base.code ++ codes.flatten := by
  refine Report.Yields.foldlM_induction (P := fun done s => ∃ codes, List.Forall₂
    (fun script bytes => (code script).Yields bytes) (Table.values done) codes ∧
      s.code = base.code ++ codes.flatten) h ⟨[], .nil, by simp⟩ ?_
  rintro done ⟨name, script⟩ rest s s' _ ⟨codes, hc, hs⟩ hst
  simp only [yields_bind, yields_pure] at hst
  obtain ⟨bytes, hb, rfl⟩ := hst
  refine ⟨codes ++ [bytes], ?_, by simp [Stream.add, hs]⟩
  rw [Table.values, List.map_append]
  exact List.rel_append hc (.cons hb .nil)

theorem laidOut_conditions {ids : Ids} (hn : level.conds.keys.Nodup) (h : (conditionStream ids level).Yields s) :
    LaidOut {} (fun script code => (Script.conditionCode ids script.lines).Yields code) level.conds s :=
  laidOut_of_foldlM hn (fun _ _ => Script.three_le_length_of_yields) h

theorem laidOut_actions {ids : Ids} (hn : level.acts.keys.Nodup) (h : (actionStream ids level).Yields s) :
    LaidOut idleStream (fun script code => (Script.actionCode ids script.lines).Yields code)
      level.acts s :=
  laidOut_of_foldlM hn (fun _ _ => Script.three_le_length_of_yields) h

def ConditionCode (level : Level) (name : String) (code : Bytes) : Prop :=
  ∃ script, level.conds.get? name = some script ∧
    (Script.conditionCode level.ids script.lines).Yields code

/-- The lines of a script of actions. A level that has no script `NOOP` has one without lines. -/
def ActionLines (level : Level) (name : String) (lines : List (Nat × String)) : Prop :=
  match level.acts.get? name with
  | some script => lines = script.lines
  | none => name = "NOOP" ∧ lines = []

def ActionCode (level : Level) (name : String) (code : Bytes) : Prop :=
  ∃ lines, level.ActionLines name lines ∧ (Script.actionCode level.ids lines).Yields code

theorem conditionCode_holdsAt (hn : level.conds.keys.Nodup) (h : (conditionStream level.ids level).Yields s)
    (ho : s.offsets.get? name = some offset) : ∃ code, level.ConditionCode name code ∧ s.code.HoldsAt offset code := by
  have hs := laidOut_conditions hn h
  cases hsc : level.conds.get? name with
  | none =>
    rw [hs.other name (Table.get?_eq_none_iff.mp hsc)] at ho
    simp at ho
  | some script =>
    obtain ⟨offset', code, ho', hc, hat, _⟩ := hs.script name script (Table.mem_of_get? hsc)
    rw [ho, Option.some.injEq] at ho'
    exact ⟨code, ⟨script, hsc, hc⟩, ho' ▸ hat⟩

/-- Actions have their code where their offset says, and only one that does nothing has it at zero. -/
theorem actionLines_holdsAt (hn : level.acts.keys.Nodup) (h : (actionStream level.ids level).Yields s)
    (ho : s.offsets.get? name = some offset) :
    ∃ lines code, level.ActionLines name lines ∧ (Script.actionCode level.ids lines).Yields code ∧
      s.code.HoldsAt offset code ∧ (offset = 0 → lines = []) := by
  have hs := laidOut_actions hn h
  unfold ActionLines
  cases hsc : level.acts.get? name with
  | none =>
    rw [hs.other name (Table.get?_eq_none_iff.mp hsc)] at ho
    obtain ⟨rfl, rfl⟩ : name = "NOOP" ∧ offset = 0 := by
      simp only [idleStream, Stream.add, Table.get?_put] at ho
      split at ho
      · rename_i he
        exact ⟨he.symm, (Option.some.inj ho).symm⟩
      · simp at ho
    obtain ⟨more, hm, _⟩ := hs.extends_base
    exact ⟨[], Instruction.stop.bytes, ⟨rfl, rfl⟩, yields_pure.mpr rfl, ⟨[], more, hm, rfl⟩,
      fun _ => rfl⟩
  | some script =>
    obtain ⟨offset', code, ho', hc, hat, hle, _⟩ :=
      hs.script name script (Table.mem_of_get? hsc)
    rw [ho, Option.some.injEq] at ho'
    subst ho'
    have hi : idleStream.code.length = 3 := rfl
    exact ⟨script.lines, code, rfl, hc, hat, by omega⟩

theorem actionCode_holdsAt (hn : level.acts.keys.Nodup) (h : (actionStream level.ids level).Yields s)
    (ho : s.offsets.get? name = some offset) : ∃ code, level.ActionCode name code ∧ s.code.HoldsAt offset code := by
  obtain ⟨lines, code, hl, hc, hat, _⟩ := actionLines_holdsAt hn h ho
  exact ⟨code, ⟨lines, hl, hc⟩, hat⟩

/-- The offset that stands for the name of a script in the record of an object. -/
def Begins (s : Stream) (name : String) (offset : Nat) : Prop :=
  if name = "" then offset = 0 else s.offsets.get? name = some offset

theorem scriptOffset_yields {kind : ScriptKind} {line offset : Nat} :
    (scriptOffset s kind name line).Yields offset ↔ Begins s name offset := by
  unfold scriptOffset Begins
  by_cases he : name = ""
  · rw [if_pos he, if_pos (by rw [he]; rfl), yields_pure]
    exact eq_comm
  · rw [if_neg he, if_neg fun hem => he (String.isEmpty_iff.mp hem)]
    cases s.offsets.get? name <;> simp

end Level

end EscapeRoom
