import EscapeRoom.Proofs.Tileset.Dialects

/-!
# What the kinds of lines do

A line ends a section, begins one, or belongs to the section in which it stands.
-/

namespace EscapeRoom.Tileset

open Report

variable {line : Line} {d : Dialect} {place : Surroundings} {p p' : Progress} {ts : Tileset}

@[simp] theorem valueOr_yields {α : Type} {parsed : Except ValueError α} {instead a : α} {issue : ValueError → Issue} :
    (valueOr parsed instead issue).Yields a ↔ parsed = .ok a := by
  unfold valueOr
  split <;> simp

def sectionWords : List String :=
  ["TILES", "CHARMAP", "OBJECTS"]

theorem partNamed?_eq_none {head : String} : partNamed? head = none ↔ head ∉ sectionWords := by
  unfold partNamed? sectionWords
  split
  · simp_all
  · split
    · simp_all
    · split
      · simp_all
      · simp_all

theorem readLine_end (h : line.text = "END") : (readLine line d place p).Yields p' ↔ { p with part := none } = p' := by
  rw [readLine, if_pos h, yields_pure]

theorem readLine_section {part : Part} (hend : line.text ≠ "END") (hp : partNamed? (firstWord line) = some part)
    (hts : p.tileset = some ts) : (readLine line d place p).Yields p' ↔ { p with part := some part } = p' := by
  have hmem : firstWord line ∈ sectionWords := by
    by_contra hmem
    rw [partNamed?_eq_none.mpr hmem] at hp
    cases hp
  have hh : firstWord line ≠ "TSET" ∧ firstWord line ≠ "FLAGBITS" := by
    refine ⟨fun h => ?_, fun h => ?_⟩
    · rw [h] at hmem
      exact absurd hmem (by decide)
    · rw [h] at hmem
      exact absurd hmem (by decide)
  unfold readLine
  rw [if_neg hend]
  dsimp only
  rw [← firstWord, if_neg hh.1, hts]
  simp [yields_reportAtIf, hh.2, hp]

theorem readLine_entry (hend : line.text ≠ "END") (hh : firstWord line ∉ "TSET" :: "FLAGBITS" :: sectionWords)
    (hts : p.tileset = some ts) :
    (readLine line d place p).Yields p' ↔ (readEntry line d p ts (Text.words line.text)).Yields p' := by
  simp only [List.mem_cons, not_or] at hh
  unfold readLine
  rw [if_neg hend]
  dsimp only
  rw [← firstWord, if_neg hh.1, hts]
  simp [yields_reportAtIf, hh.2.1, partNamed?_eq_none.mpr hh.2.2]

end EscapeRoom.Tileset
