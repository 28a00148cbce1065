import EscapeRoom.Proofs.Lines
import EscapeRoom.Proofs.Tileset.Agreement

/-!
# Printed fields

A field is printed with its value in quotes, or bare if the value is not empty and has no blanks. Scanning a line
undoes this: whatever words without an equals sign stand in front, and however many spaces lie between, the fields that
were printed are found again, all of them, nothing else, and in their order.
-/

namespace EscapeRoom.Fields

/-- The texts of a field: with the value in quotes, or bare where that shows the whole value. -/
inductive PrintsAs (key value : String) : String → Prop
  | quoted : PrintsAs key value (key ++ "=\"" ++ value ++ "\"")
  | bare : value ≠ "" → (∀ c ∈ value.toList, Text.isBlank c = false) → PrintsAs key value (key ++ "=" ++ value)

/-- Fields that can be printed: the keys differ and are words, and no value has a quote or ends its line. -/
structure Printable (fields : Fields) : Prop where
  distinct : fields.keys.Nodup
  keys : ∀ key ∈ fields.keys, Piece.IsKey key
  values : ∀ value ∈ fields.values, ∀ c ∈ value.toList, c ≠ '"' ∧ c ≠ '\n'

variable {key value text line : String} {fields : Fields} {words texts : List String}

theorem PrintsAs.exists_piece (h : PrintsAs key value text) (hkey : Piece.IsKey key)
    (hvalue : ∀ c ∈ value.toList, c ≠ '"' ∧ c ≠ '\n') :
    ∃ p : Piece, p.text = text ∧ p.field? = some (key, value) ∧ p.Readable := by
  cases h with
  | quoted => exact ⟨.quoted key value, rfl, rfl, hkey, hvalue⟩
  | bare hne hblank =>
    exact ⟨.bare key value, rfl, rfl, hkey, hne, fun c hc => ⟨hblank c hc, (hvalue c hc).1⟩⟩

theorem exists_pieces (h : List.Forall₂ (fun e t => PrintsAs e.1 e.2 t) fields texts)
    (hkeys : ∀ e ∈ fields, Piece.IsKey e.1) (hvalues : ∀ e ∈ fields, ∀ c ∈ e.2.toList, c ≠ '"' ∧ c ≠ '\n') :
    ∃ pieces : List Piece, pieces.map Piece.text = texts ∧ pieces.filterMap Piece.field? = fields ∧
      ∀ p ∈ pieces, p.Readable := by
  induction h with
  | nil => exact ⟨[], rfl, rfl, by simp⟩
  | cons he _ ih =>
    rw [List.forall_mem_cons] at hkeys hvalues
    obtain ⟨p, htext, hfield, hp⟩ := he.exists_piece hkeys.1 hvalues.1
    obtain ⟨pieces, htexts, hfields, hpieces⟩ := ih hkeys.2 hvalues.2
    refine ⟨p :: pieces, ?_, ?_, List.forall_mem_cons.mpr ⟨hp, hpieces⟩⟩
    · rw [List.map_cons, htext, htexts]
    · rw [List.filterMap_cons_some hfield, hfields]

/-- Scanning undoes printing. Keys may be of any word characters, those of ASCII among them, and values may have inner
blanks and equals signs, or nothing in them if they are quoted. -/
theorem scan_printed (h : fields.Printable) (htexts : List.Forall₂ (fun e t => PrintsAs e.1 e.2 t) fields texts)
    (hwords : ∀ w ∈ words, '=' ∉ w.toList) (hline : Spaced (words ++ texts) line) : scan line = fields := by
  obtain ⟨pieces, rfl, hfields, hpieces⟩ := exists_pieces htexts
    (fun e he => h.keys e.1 (List.mem_map_of_mem he)) fun e he => h.values e.2 (List.mem_map_of_mem he)
  have hreadable : ∀ p ∈ words.map Piece.plain ++ pieces, p.Readable := by
    intro p hp
    rcases List.mem_append.mp hp with hp | hp
    · obtain ⟨w, hw, rfl⟩ := List.mem_map.mp hp
      exact hwords w hw
    · exact hpieces p hp
  have hall : (words.map Piece.plain ++ pieces).map Piece.text = words ++ pieces.map Piece.text := by
    rw [List.map_append, List.map_map]
    congr 1
    exact List.map_id words
  have hplain : (words.map Piece.plain).filterMap Piece.field? = [] := by
    simp [Piece.field?]
  rw [Piece.scan_spaced hreadable (hall ▸ hline), List.filterMap_append, hplain, hfields]
  exact Table.ofEntries_of_nodup h.distinct

theorem scan_printed_room :
    Spaced (["ROOM", "R0"] ++ ["name=\"a = b \"", "note=\"\"", "start=x=y"]) "ROOM R0   name=\"a = b \" note=\"\"  start=x=y" ∧
      scan "ROOM R0   name=\"a = b \" note=\"\"  start=x=y" = [("name", "a = b "), ("note", ""), ("start", "x=y")] := by
  have hline : Spaced (["ROOM", "R0"] ++ ["name=\"a = b \"", "note=\"\"", "start=x=y"])
      "ROOM R0   name=\"a = b \" note=\"\"  start=x=y" :=
    .more "ROOM" 0 (.more "R0" 2 (.more "name=\"a = b \"" 0 (.more "note=\"\"" 1 (.one "start=x=y"))))
  have hprintable : Printable [("name", "a = b "), ("note", ""), ("start", "x=y")] :=
    ⟨by decide, by decide, by decide⟩
  refine ⟨hline, scan_printed hprintable ?_ (by decide) hline⟩
  exact .cons .quoted (.cons .quoted (.cons (.bare (by decide) (by decide)) .nil))

end EscapeRoom.Fields
