import EscapeRoom.Proofs.Lines
import EscapeRoom.Proofs.Picture.Multicolor
import EscapeRoom.TileKit.TilesetText
import EscapeRoom.Tileset.Read

/-!
# Names, slots, colours and flags as a tileset writes them

The names of a kit are words of capital letters, digits and underscores, which reading leaves as they are.
Slots are written with two hexadecimal digits and colours by name, and both are read back. Flags have no
blanks in them.
-/

namespace EscapeRoom

namespace Text

variable {c d : Char} {s : String} {ranges : List (Nat × Nat)}

theorem inRanges_ofNat {n : Nat} (h : inRanges ranges n = false)
    (hz : inRanges ranges 0 = false) : inRanges ranges (Char.ofNat n).toNat = false := by
  by_cases hv : n.isValidChar
  · rw [Char.ofNat, dif_pos hv]
    exact h
  · rw [Char.ofNat, dif_neg hv]
    exact hz

/-- The characters in some ranges are no upper case of other characters. -/
structure IsCaseless (ranges : List (Nat × Nat)) : Prop where
  zero : inRanges ranges 0 = false
  ascii : ∀ n < 128, inRanges ranges n = false →
    inRanges ranges (if 'a' ≤ Char.ofNat n && Char.ofNat n ≤ 'z' then Char.ofNat ((Char.ofNat n).toNat - 32)
      else Char.ofNat n).toNat = false
  runs : ∀ r ∈ upperRuns, 0 < r.first + r.shift ∧
    ∀ b ∈ ranges, (b.2 : Int) < r.first + r.shift ∨ (r.last : Int) + r.shift < b.1
  expansions : ∀ e ∈ upperExpansions, ∀ n ∈ e.2, inRanges ranges n = false

theorem IsCaseless.shiftBy (hr : IsCaseless ranges) {n : Nat}
    (h : inRanges ranges n = false) : inRanges ranges (shiftBy upperRuns n) = false := by
  unfold Text.shiftBy
  split
  · rename_i r hf
    have hc := List.find?_some hf
    obtain ⟨hpos, ha⟩ := hr.runs r (List.mem_of_find?_eq_some hf)
    simp only [CaseRun.covers, Bool.and_eq_true, decide_eq_true_eq] at hc
    simp only [inRanges, List.any_eq_false, Bool.and_eq_true, decide_eq_true_eq, not_and, not_le]
    intro b hb
    have hb := ha b hb
    omega
  · exact h

theorem IsCaseless.upperChar (hr : IsCaseless ranges)
    (h : inRanges ranges c.toNat = false) : ∀ d ∈ upperChar c, inRanges ranges d.toNat = false := by
  intro d hd
  unfold Text.upperChar at hd
  split at hd
  · rename_i hc
    have hn := hr.ascii c.toNat hc h
    rw [Char.ofNat_toNat] at hn
    exact List.mem_singleton.mp hd ▸ hn
  · split at hd
    · rename_i e he
      obtain ⟨n, hn, rfl⟩ := List.mem_map.mp hd
      exact inRanges_ofNat (hr.expansions e (List.mem_of_find?_eq_some he) n hn) hr.zero
    · exact List.mem_singleton.mp hd ▸ inRanges_ofNat (hr.shiftBy h) hr.zero

theorem upperChar_ne_nil (c : Char) : upperChar c ≠ [] := by
  have hall : ∀ e ∈ upperExpansions, e.2 ≠ [] := by decide
  unfold upperChar
  split
  · simp
  · split
    · rename_i e he
      simpa using hall e (List.mem_of_find?_eq_some he)
    · simp

theorem upper_ne_empty (h : s ≠ "") : upper s ≠ "" := by
  rw [← String.toList_eq_nil_iff.ne] at h
  obtain ⟨c, cs, hs⟩ := List.exists_cons_of_ne_nil h
  rw [← String.toList_eq_nil_iff.ne, upper, String.toList_ofList, hs, List.flatMap_cons]
  simp [upperChar_ne_nil c]

end Text

namespace Number

/-- A hexadecimal digit as a capital letter or a decimal digit. -/
def hexCapital (d : Nat) : Char :=
  let c := Nat.digitChar d
  if 'a' ≤ c && c ≤ 'f' then Char.ofNat (c.toNat - 32) else c

theorem hexCapital_spec : ∀ d < 16, digitIn? 16 (hexCapital d) = some d ∧ Text.isNameChar (hexCapital d) = true ∧
    hexCapital d ≠ '_' := by
  decide

theorem toList_hexUpper {n : Nat} (h : n < 256) :
    (hexUpper 2 (n : Nat)).toList = [hexCapital (n / 16), hexCapital (n % 16)] := by
  have hs : ¬((n : Int) < 0) := by omega
  rw [hexUpper, String.toList_ofList, if_neg hs, Int.natAbs_natCast, upperHexDigits]
  by_cases hn : n < 16
  · rw [Nat.toDigits_of_lt_base hn, Nat.div_eq_of_lt hn, Nat.mod_eq_of_lt hn]
    rfl
  · rw [Nat.toDigits_of_base_le (by decide) (by omega), Nat.toDigits_of_lt_base (by omega)]
    rfl

theorem parseLiteral_hexUpper {n : Nat} (h : n < 256) :
    parseLiteral .marked ("0x" ++ hexUpper 2 (n : Nat)) = .ok (n : Int) := by
  obtain ⟨hh, hn, hne⟩ := hexCapital_spec (n / 16) (by omega)
  obtain ⟨hlow, hn', hne'⟩ := hexCapital_spec (n % 16) (by omega)
  have hp : ∀ {c}, Text.isNameChar c = true → plainChar c = c := by
    intro c hc
    have hlt := Text.toNat_lt_of_isNameChar hc
    have hne : c.toNat ≠ 127 := by
      intro h127
      have hc' : c = Char.ofNat 127 := by rw [← h127, Char.ofNat_toNat]
      rw [hc'] at hc
      exact absurd hc (by decide)
    rw [plainChar, if_pos (by omega)]
  have hl : ("0x" ++ hexUpper 2 (n : Nat)).toList = ['0', 'x', hexCapital (n / 16), hexCapital (n % 16)] := by
    rw [String.toList_append, toList_hexUpper h]
    rfl
  have hdi : digitsFrom 16 [] [hexCapital (n / 16), hexCapital (n % 16)] = some ([n / 16, n % 16], []) := by
    simp [digitsFrom, hh, hlow, hne]
  have hnu : numeral? .marked ['0', 'x', hexCapital (n / 16), hexCapital (n % 16)] =
      some ⟨16, [n / 16, n % 16], []⟩ := by
    have hm : markedNumeral? 16 [hexCapital (n / 16), hexCapital (n % 16)] = some ⟨16, [n / 16, n % 16], []⟩ := by
      rw [markedNumeral?, hdi]
      · rfl
      · intro rest he
        exact hne (List.cons.inj he).1
    exact hm
  have hv : digitsValue 16 [n / 16, n % 16] = n := by
    simp only [digitsValue, List.foldl_cons, List.foldl_nil]
    omega
  rw [parseLiteral, hl, List.map_cons, List.map_cons, List.map_cons, List.map_cons, List.map_nil, hp hn,
    hp hn']
  have hs : literalSign ((plainChar '0' :: plainChar 'x' :: [hexCapital (n / 16), hexCapital (n % 16)]).dropWhile
      isPlainBlank) = (1, ['0', 'x', hexCapital (n / 16), hexCapital (n % 16)]) := rfl
  rw [hs]
  simp [hnu, hv]

end Number

namespace TileKit

variable {s : String} {c : Char}

/-! ### Names -/

/-- A name as a kit has them: capital letters, digits and underscores. -/
def IsTileName (s : String) : Prop :=
  s ≠ "" ∧ ∀ c ∈ s.toList, isNameChar c = true ∨ c = '_'

theorem mem_of_mem_singleUnderscores {inside : Bool} {cs : List Char} (h : c ∈ singleUnderscores inside cs) :
    c ∈ cs := by
  induction cs generalizing inside with
  | nil => exact h
  | cons d cs ih =>
    rw [singleUnderscores] at h
    split at h
    · split at h
      · exact List.mem_cons_of_mem d (ih h)
      · exact (List.mem_cons.mp h).elim (· ▸ List.mem_cons_self) fun h => List.mem_cons_of_mem d (ih h)
    · exact (List.mem_cons.mp h).elim (· ▸ List.mem_cons_self) fun h => List.mem_cons_of_mem d (ih h)

theorem isTileName_tileName (description : String) : IsTileName (tileName description) := by
  unfold tileName
  extract_lets cs
  split
  · exact ⟨by decide, by decide⟩
  · rename_i hne
    refine ⟨by simpa using hne, fun c hc => ?_⟩
    rw [String.toList_ofList] at hc
    have hc := mem_of_mem_singleUnderscores (Text.mem_of_mem_dropUnderscores hc)
    obtain ⟨d, -, rfl⟩ := List.mem_map.mp hc
    by_cases hd : isNameChar d = true
    · exact .inl (by rwa [if_pos hd])
    · exact .inr (if_neg hd)

theorem isNameChar_spec (h : isNameChar c = true ∨ c = '_') :
    Text.isNameChar c = true ∧ Text.upperChar c = [c] := by
  have hlt : c.toNat < 128 := by
    rcases h with h | rfl
    · simp only [isNameChar, Text.isAsciiDigit, Bool.or_eq_true, Bool.and_eq_true, decide_eq_true_eq] at h
      rcases h with ⟨-, h⟩ | ⟨-, h⟩
      · exact Nat.lt_of_le_of_lt h (by decide)
      · exact Nat.lt_of_le_of_lt h (by decide)
    · decide
  have hall : ∀ n < 128, (isNameChar (Char.ofNat n) = true ∨ Char.ofNat n = '_') →
      Text.isNameChar (Char.ofNat n) = true ∧ Text.upperChar (Char.ofNat n) = [Char.ofNat n] := by
    decide
  have hn := hall c.toNat hlt
  rw [Char.ofNat_toNat] at hn
  exact hn h

namespace IsTileName

theorem isNameChar (h : IsTileName s) : ∀ c ∈ s.toList, Text.isNameChar c = true :=
  fun c hc => (isNameChar_spec (h.2 c hc)).1

theorem isBlank (h : IsTileName s) : ∀ c ∈ s.toList, Text.isBlank c = false :=
  fun c hc => (Text.isNameChar_plain (h.isNameChar c hc)).1

theorem isWord (h : IsTileName s) : Text.IsWord s :=
  ⟨h.1, h.isBlank⟩

theorem trim (h : IsTileName s) : Text.trim s = s :=
  Text.trim_of_forall h.isBlank

theorem upper (h : IsTileName s) : Text.upper s = s := by
  have hc : ∀ cs : List Char, (∀ c ∈ cs, TileKit.isNameChar c = true ∨ c = '_') →
      cs.flatMap Text.upperChar = cs := by
    intro cs hcs
    induction cs with
    | nil => rfl
    | cons c cs ih =>
      rw [List.forall_mem_cons] at hcs
      rw [List.flatMap_cons, (isNameChar_spec hcs.1).2, ih hcs.2, List.singleton_append]
  rw [Text.upper, hc s.toList h.2, String.ofList_toList]

end IsTileName

/-! ### Slots and colours -/

theorem isNameChar_slot {n : Nat} (h : n < 256) :
    ∀ c ∈ ("0x" ++ Number.hexUpper 2 (n : Nat)).toList, Text.isNameChar c = true := by
  rw [String.toList_append, Number.toList_hexUpper h]
  obtain ⟨-, hh, -⟩ := Number.hexCapital_spec (n / 16) (by omega)
  obtain ⟨-, hlow, -⟩ := Number.hexCapital_spec (n % 16) (by omega)
  simp only [List.mem_append, List.mem_cons, List.not_mem_nil, or_false]
  rintro c (hc | rfl | rfl)
  · revert c
    decide
  · exact hh
  · exact hlow

theorem parseScreenCode_slot {n : Nat} (h : n < 256) :
    Tileset.parseScreenCode ("0x" ++ Number.hexUpper 2 (n : Nat)) = .ok (n : Int) := by
  have ht : Text.trim ("0x" ++ Number.hexUpper 2 (n : Nat)) = "0x" ++ Number.hexUpper 2 (n : Nat) :=
    Text.trim_of_forall fun c hc => (Text.isNameChar_plain (isNameChar_slot h c hc)).1
  have hl : ("0x" ++ Number.hexUpper 2 (n : Nat)).toList =
      '0' :: 'x' :: [Number.hexCapital (n / 16), Number.hexCapital (n % 16)] := by
    rw [String.toList_append, Number.toList_hexUpper h]
    rfl
  have hn : Tileset.parseNumber ("0x" ++ Number.hexUpper 2 (n : Nat)) = .ok (n : Int) := by
    simp only [Tileset.parseNumber, ht, hl, Number.parseLiteral_hexUpper h]
    rfl
  simp only [Tileset.parseScreenCode, ht, hl, hn]

theorem parseColor_colorName : ∀ n < 16,
    Tileset.parseColor Tileset.fullDialect.colors (Listing.colorName n) = .ok (n : Int) := by
  decide +kernel

theorem isNameChar_colorName : ∀ n < 16, Listing.colorName n ≠ "" ∧
    ∀ c ∈ (Listing.colorName n).toList, Text.isNameChar c = true := by
  decide

theorem parseQuad_join {α : Type} {parse : String → Except Tileset.ValueError Int} {text : α → String}
    {value : α → Int} {q : Quad α} (hn : ∀ a ∈ q.toList, ∀ c ∈ (text a).toList, Text.isNameChar c = true)
    (hp : ∀ a ∈ q.toList, parse (text a) = .ok (value a)) :
    Tileset.parseQuad parse (Text.join "," (q.toList.map text)) = .ok (q.map value) := by
  have hpl : ∀ t ∈ q.toList.map text, Text.trim t = t ∧ ',' ∉ t.toList := by
    intro t ht
    obtain ⟨a, ha, rfl⟩ := List.mem_map.mp ht
    refine ⟨Text.trim_of_forall fun c hc => (Text.isNameChar_plain (hn a ha c hc)).1, fun hc => ?_⟩
    exact absurd (hn a ha _ hc) (by decide)
  have hpa : (Text.parts ',' (Text.join "," (q.toList.map text))).map Text.trim = q.toList.map text := by
    rw [Text.parts_join rfl (fun t ht => (hpl t ht).2) (by simp [Quad.toList]), List.map_congr_left
      fun t ht => (hpl t ht).1, List.map_id']
  have hv : (q.toList.map text).mapM parse = .ok (q.toList.map value) := by
    rw [List.mapM_map]
    exact Multicolor.mapM_of_forall_ok hp
  have hl : Tileset.parseList parse (Text.join "," (q.toList.map text)) 4 = .ok (q.toList.map value) := by
    rw [Tileset.parseList]
    simp only [hpa, hv, List.length_map, Quad.length_toList]
    rfl
  rw [Tileset.parseQuad, hl]
  rfl

/-! ### Flags -/

def flagList (flags : String) : List String :=
  (Text.parts '|' flags).filter (! String.isEmpty ·)

/-- The mask of flags by their names; a flag that is unknown has no bit. -/
def flagMask (names : List String) : Nat :=
  names.foldl (fun mask name => (flagBit? (Text.upper name)).elim mask fun bit => mask ||| 1 <<< bit) 0

/-- Flags as a kit has them: one at least, and no separators in them. -/
def IsFlagText (flags : String) : Prop :=
  flagList flags ≠ [] ∧ ∀ name ∈ flagList flags, ∀ c ∈ name.toList, separatesFlags c = false

def separators : List (Nat × Nat) :=
  (0x2C, 0x2C) :: (0x7C, 0x7C) :: Text.blankRanges

theorem separatesFlags_eq : separatesFlags c = Text.inRanges separators c.toNat := by
  have hc : ∀ d : Char, decide (c = d) = (decide (d.toNat ≤ c.toNat) && decide (c.toNat ≤ d.toNat)) := by
    intro d
    rw [← Bool.decide_and, decide_eq_decide, ← Char.toNat_inj]
    omega
  rw [separatesFlags, hc, hc, Text.isBlank, Bool.or_assoc]
  rfl

theorem isCaseless_separators : Text.IsCaseless separators :=
  ⟨by decide +kernel, by decide +kernel, by decide +kernel, by decide +kernel⟩

theorem separatesFlags_upper (h : ∀ c ∈ s.toList, separatesFlags c = false) :
    ∀ c ∈ (Text.upper s).toList, separatesFlags c = false := by
  intro d hd
  rw [Text.upper, String.toList_ofList, List.mem_flatMap] at hd
  obtain ⟨c, hc, hd⟩ := hd
  have hc := h c hc
  rw [separatesFlags_eq] at hc ⊢
  exact isCaseless_separators.upperChar hc d hd

theorem flagRuns_spec {run cs : List Char} (hrun : ∀ c ∈ run, separatesFlags c = false) :
    ∀ r ∈ flagRuns run cs, r ≠ [] ∧ ∀ c ∈ r, separatesFlags c = false := by
  have hdo : run.isEmpty = false → run.reverse ≠ [] ∧ ∀ c ∈ run.reverse, separatesFlags c = false := by
    intro hne
    exact ⟨by simpa using hne, fun c hc => hrun c (List.mem_reverse.mp hc)⟩
  induction cs generalizing run with
  | nil =>
    rw [flagRuns]
    split
    · simp
    · rename_i hne
      exact List.forall_mem_singleton.mpr (hdo (by simpa using hne))
  | cons c cs ih =>
    have hr := @ih [] (by simp) (by simp)
    rw [flagRuns]
    split
    · split
      · exact hr
      · rename_i hne
        exact List.forall_mem_cons.mpr ⟨hdo (by simpa using hne), hr⟩
    · rename_i hc
      have hn : ∀ d ∈ c :: run, separatesFlags d = false :=
        List.forall_mem_cons.mpr ⟨by simpa using hc, hrun⟩
      exact ih hn fun _ => ⟨by simp, fun d hd => hn d (List.mem_reverse.mp hd)⟩

theorem isFlagText_flagsText {flags : String} (h : flagsText flags ≠ "") : IsFlagText (flagsText flags) := by
  obtain ⟨names, hn⟩ :
      ∃ names, (flagRuns [] flags.toList).map (fun run => Text.upper (String.ofList run)) = names := ⟨_, rfl⟩
  have hs : ∀ name ∈ names, name ≠ "" ∧ ∀ c ∈ name.toList, separatesFlags c = false := by
    intro name hna
    rw [← hn] at hna
    obtain ⟨run, hrun, rfl⟩ := List.mem_map.mp hna
    obtain ⟨hne, hp⟩ := flagRuns_spec (by simp) run hrun
    exact ⟨Text.upper_ne_empty (by simpa using hne), separatesFlags_upper (by simpa using hp)⟩
  rw [flagsText, hn] at h ⊢
  have hne : names ≠ [] := by
    rintro rfl
    exact h rfl
  have hbar : ∀ name ∈ names, '|' ∉ name.toList := by
    intro name hna hc
    exact absurd ((hs name hna).2 _ hc) (by decide)
  have hl : flagList (Text.join "|" names) = names := by
    rw [flagList, Text.parts_join rfl hbar hne, List.filter_eq_self]
    intro name hna
    simpa using (hs name hna).1
  rw [IsFlagText, hl]
  exact ⟨hne, fun name hna => (hs name hna).2⟩

end TileKit

end EscapeRoom
