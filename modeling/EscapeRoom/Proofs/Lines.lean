import Mathlib.Data.List.TakeWhile
import EscapeRoom.Line
import EscapeRoom.Proofs.Paths

/-!
# Lines of words

A text that was put together from lines, words and fields is taken apart into the same lines, words and
fields. Blanks around a line and comments behind it do not count.
-/

namespace EscapeRoom

namespace Text

variable {c sep : Char} {s t sepText : String} {cs as bs rest tail word : List Char} {texts : List String}

/-- What all characters of a list have is decided along the list, not over all characters there are. -/
instance (priority := 2000) decidableForallMem (p : Char → Prop) [DecidablePred p] (cs : List Char) :
    Decidable (∀ c ∈ cs, p c) :=
  List.decidableBAll p cs

def isNameChar (c : Char) : Bool :=
  isAsciiAlphanumeric c || c == '_'

theorem toNat_lt_of_isNameChar (h : isNameChar c = true) : c.toNat < 128 := by
  simp only [isNameChar, isAsciiAlphanumeric, isAsciiLetter, isAsciiDigit, Bool.or_eq_true, Bool.and_eq_true,
    decide_eq_true_eq, beq_iff_eq] at h
  rcases h with ((⟨-, h⟩ | ⟨-, h⟩) | ⟨-, h⟩) | rfl
  · exact Nat.lt_of_le_of_lt h (by decide)
  · exact Nat.lt_of_le_of_lt h (by decide)
  · exact Nat.lt_of_le_of_lt h (by decide)
  · decide

theorem isNameChar_plain (h : isNameChar c = true) :
    isBlank c = false ∧ isWordChar c = true ∧ c ∉ ['=', ':', ',', ';', '"', '|', '\n', '\r'] := by
  have hall : ∀ n < 128, isNameChar (Char.ofNat n) = true → isBlank (Char.ofNat n) = false ∧
      isWordChar (Char.ofNat n) = true ∧ Char.ofNat n ∉ ['=', ':', ',', ';', '"', '|', '\n', '\r'] := by
    decide
  have hp := hall c.toNat (toNat_lt_of_isNameChar h)
  rw [Char.ofNat_toNat] at hp
  exact hp h

theorem identifier_eq_self_iff : identifier s = s ↔ ∀ c ∈ s.toList, isNameChar c = true := by
  rw [← String.toList_inj, identifier, String.toList_ofList]
  nth_rewrite 2 [← List.map_id s.toList]
  rw [List.map_inj_left]
  refine forall₂_congr fun c _ => ?_
  by_cases hc : c = '_'
  · simp [isNameChar, hc]
  · by_cases ha : isAsciiAlphanumeric c = true
    · simp [isNameChar, ha]
    · simp [isNameChar, ha, hc, Ne.symm hc]

/-! ### Joining and cutting -/

theorem toList_join_cons (sepText s : String) (texts : List String) (h : texts ≠ []) :
    (join sepText (s :: texts)).toList = s.toList ++ (sepText.toList ++ (join sepText texts).toList) := by
  cases texts with
  | nil => exact absurd rfl h
  | cons t rest => simp [join, List.append_assoc]

theorem partsOf_join (hsep : sepText.toList = [sep]) (h : ∀ t ∈ texts, sep ∉ t.toList) (hne : texts ≠ []) :
    partsOf sep (join sepText texts).toList = texts.map String.toList := by
  induction texts with
  | nil => exact absurd rfl hne
  | cons t rest ih =>
    rw [List.forall_mem_cons] at h
    by_cases hr : rest = []
    · subst hr
      exact partsOf_of_not_mem h.1
    · rw [toList_join_cons sepText t rest hr, hsep, List.singleton_append, partsOf_append, partsOf_of_not_mem h.1,
        ih h.2 hr]
      rfl

theorem parts_join (hsep : sepText.toList = [sep]) (h : ∀ t ∈ texts, sep ∉ t.toList) (hne : texts ≠ []) :
    parts sep (join sepText texts) = texts := by
  rw [parts, partsOf_join hsep h hne, List.map_map]
  exact (List.map_congr_left fun t _ => String.ofList_toList).trans (List.map_id texts)

/-! ### Trimming -/

theorem length_trimEnd_le (cs : List Char) : (trimEnd cs).length ≤ cs.length := by
  calc (trimEnd cs).length = (cs.reverse.dropWhile isBlank).length := List.length_reverse
    _ ≤ cs.reverse.length := (List.dropWhile_sublist _).length_le
    _ = cs.length := List.length_reverse

theorem trimStart_of_trimChars (h : trimChars cs = cs) : trimStart cs = cs := by
  have hlen : cs.length ≤ (trimStart cs).length := by
    calc cs.length = (trimEnd (trimStart cs)).length := by rw [← trimChars, h]
      _ ≤ (trimStart cs).length := length_trimEnd_le _
  exact (List.dropWhile_suffix _).eq_of_length (Nat.le_antisymm (List.dropWhile_sublist _).length_le hlen)

theorem trimEnd_of_trimChars (h : trimChars cs = cs) : trimEnd cs = cs := by
  rw [trimChars, trimStart_of_trimChars h] at h
  exact h

theorem trimStart_of_head (h : ∀ c ∈ cs.head?, isBlank c = false) : trimStart cs = cs := by
  cases cs with
  | nil => rfl
  | cons c cs =>
    have hc := h c rfl
    simp [trimStart, hc]

theorem trimEnd_of_last (h : ∀ c ∈ cs.getLast?, isBlank c = false) : trimEnd cs = cs := by
  have hrev : trimStart cs.reverse = cs.reverse := trimStart_of_head (by simpa using h)
  rw [trimEnd, ← trimStart, hrev, List.reverse_reverse]

theorem trimChars_of_ends (hh : ∀ c ∈ cs.head?, isBlank c = false)
    (hl : ∀ c ∈ cs.getLast?, isBlank c = false) : trimChars cs = cs := by
  rw [trimChars, trimStart_of_head hh, trimEnd_of_last hl]

theorem head_of_trimChars (h : trimChars cs = cs) : ∀ c ∈ cs.head?, isBlank c = false := by
  have hs := trimStart_of_trimChars h
  intro c hc
  cases cs with
  | nil => cases hc
  | cons d cs =>
    obtain rfl : d = c := by simpa using hc
    by_contra hb
    rw [trimStart, List.dropWhile_cons_of_pos (by simpa using hb)] at hs
    have hlen : (cs.dropWhile isBlank).length ≤ cs.length := (List.dropWhile_sublist isBlank).length_le
    rw [hs, List.length_cons] at hlen
    omega

theorem last_of_trimChars (h : trimChars cs = cs) : ∀ c ∈ cs.getLast?, isBlank c = false := by
  have hrev : trimChars cs.reverse = cs.reverse := by
    have hs : trimStart cs.reverse = cs.reverse := by
      rw [← List.reverse_inj, List.reverse_reverse]
      exact trimEnd_of_trimChars h
    have hend : trimEnd cs.reverse = cs.reverse := by
      rw [trimEnd, List.reverse_reverse]
      exact congrArg List.reverse (trimStart_of_trimChars h)
    rw [trimChars, hs, hend]
  simpa using head_of_trimChars hrev

theorem trimChars_of_forall (h : ∀ c ∈ cs, isBlank c = false) : trimChars cs = cs :=
  trimChars_of_ends (fun c hc => h c (List.mem_of_head? hc)) fun c hc => h c (List.mem_of_getLast? hc)

theorem trim_eq_self_iff : trim s = s ↔ trimChars s.toList = s.toList := by
  rw [trim, ← String.toList_inj, String.toList_ofList]

theorem trim_of_forall (h : ∀ c ∈ s.toList, isBlank c = false) : trim s = s :=
  trim_eq_self_iff.mpr (trimChars_of_forall h)

theorem trimStart_append (h : ∀ c ∈ as, isBlank c = true) : trimStart (as ++ cs) = trimStart cs := by
  induction as with
  | nil => rfl
  | cons c as ih =>
    rw [List.forall_mem_cons] at h
    rw [List.cons_append, trimStart, List.dropWhile_cons_of_pos h.1]
    exact ih h.2

/-! ### Words -/

theorem wordsFrom_append (h : ∀ c ∈ as, isBlank c = false) :
    wordsFrom word (as ++ bs) = wordsFrom (as.reverse ++ word) bs := by
  induction as generalizing word with
  | nil => rfl
  | cons c as ih =>
    rw [List.forall_mem_cons] at h
    rw [List.cons_append, wordsFrom, h.1]
    simpa using ih h.2

/-- A run of characters that is a word of every line on which it stands between blanks. -/
def IsWord (s : String) : Prop :=
  s ≠ "" ∧ ∀ c ∈ s.toList, isBlank c = false

instance (s : String) : Decidable (IsWord s) :=
  inferInstanceAs (Decidable (_ ∧ _))

theorem words_of_isWord (h : IsWord s) : words s = [s] := by
  have hw : wordsOf s.toList = [s.toList] := by
    rw [wordsOf, ← List.append_nil s.toList, wordsFrom_append h.2]
    simp [wordsFrom, h.1]
  simp [words, hw]

theorem words_join_cons (h : IsWord s) (texts : List String) : words (join " " (s :: texts)) = s :: words (join " " texts) := by
  by_cases ht : texts = []
  · subst ht
    exact words_of_isWord h
  · have hw : wordsOf (join " " (s :: texts)).toList = s.toList :: wordsOf (join " " texts).toList := by
      rw [toList_join_cons " " s texts ht, wordsOf, wordsFrom_append h.2]
      have hb : isBlank ' ' = true := by decide
      simp [wordsFrom, hb, wordsOf, h.1]
    simp [words, hw]

theorem words_join (h : ∀ t ∈ texts, IsWord t) : words (join " " texts) = texts := by
  induction texts with
  | nil => rfl
  | cons t rest ih =>
    rw [List.forall_mem_cons] at h
    rw [words_join_cons h.1, ih h.2]

/-! ### Lines -/

def unlines (texts : List String) : String :=
  String.join (texts.map (· ++ "\n"))

theorem toList_unlines (texts : List String) :
    (unlines texts).toList = texts.flatMap fun t => t.toList ++ ['\n'] := by
  simp [unlines, String.toList_join, List.flatMap_map]

theorem unlines_append (as bs : List String) : unlines (as ++ bs) = unlines as ++ unlines bs := by
  simp [unlines, String.join_append]

theorem unlines_cons (t : String) (texts : List String) : unlines (t :: texts) = t ++ "\n" ++ unlines texts := by
  simp [unlines, String.join_cons]

theorem lines_cons (h : '\n' ∉ t.toList) (rest : String) : lines (t ++ "\n" ++ rest) = t :: lines rest := by
  have hl : (t ++ "\n" ++ rest).toList = t.toList ++ '\n' :: rest.toList := by simp
  obtain ⟨part, parts, hp⟩ := List.exists_cons_of_ne_nil (partsOf_ne_nil '\n' rest.toList)
  rw [lines, linesOf, hl, partsOf_append, partsOf_of_not_mem h, lines, linesOf, hp]
  by_cases he : (part :: parts).getLast? = some []
  · simp [he]
  · simp [he]

theorem lines_unlines (h : ∀ t ∈ texts, '\n' ∉ t.toList) : lines (unlines texts) = texts := by
  induction texts with
  | nil => rfl
  | cons t rest ih =>
    rw [List.forall_mem_cons] at h
    rw [unlines_cons, lines_cons h.1, ih h.2]

theorem normalizeEnds_of_not_mem (h : '\r' ∉ cs) : normalizeEnds cs = cs := by
  fun_induction normalizeEnds cs with
  | case1 => rfl
  | case2 rest ih => simp at h
  | case3 c rest _ ih =>
    simp only [List.mem_cons, not_or] at h
    rw [ih h.2, if_neg (Ne.symm h.1)]

end Text

/-- A text that stands on a line as it is: something without blanks at its ends and without the characters
that end a line or begin a comment. -/
@[mk_iff]
structure IsLine (t : String) : Prop where
  ne_empty : t ≠ ""
  trimmed : Text.trimChars t.toList = t.toList
  plain : ∀ c ∈ t.toList, c ∉ [';', '\n', '\r']

instance (t : String) : Decidable (IsLine t) :=
  decidable_of_iff _ (isLine_iff t).symm

theorem isLine_of_forall {t : String} (hne : t ≠ "")
    (h : ∀ c ∈ t.toList, Text.isBlank c = false ∧ c ∉ [';', '\n', '\r']) : IsLine t :=
  ⟨hne, Text.trimChars_of_forall fun c hc => (h c hc).1, fun c hc => (h c hc).2⟩

theorem isLine_join {texts : List String} (hne : texts ≠ []) (h : ∀ t ∈ texts, IsLine t) :
    IsLine (Text.join " " texts) := by
  induction texts with
  | nil => exact absurd rfl hne
  | cons t rest ih =>
    rw [List.forall_mem_cons] at h
    by_cases hr : rest = []
    · subst hr
      exact h.1
    · have hre := ih hr h.2
      have hl := Text.toList_join_cons " " t rest hr
      have htne : t.toList ≠ [] := by simpa using h.1.ne_empty
      have hjne : (Text.join " " rest).toList ≠ [] := by simpa using hre.ne_empty
      refine ⟨?_, ?_, ?_⟩
      · rw [← String.toList_eq_nil_iff.ne, hl]
        simp [htne]
      · rw [hl]
        refine Text.trimChars_of_ends ?_ ?_
        · rw [List.head?_append_of_ne_nil _ htne]
          exact Text.head_of_trimChars h.1.trimmed
        · rw [List.getLast?_append_of_ne_nil _ (by simp), List.getLast?_append_of_ne_nil _ hjne]
          exact Text.last_of_trimChars hre.trimmed
      · rw [hl]
        intro c hc
        simp only [List.mem_append] at hc
        rcases hc with hc | hc | hc
        · exact h.1.plain c hc
        · obtain rfl : c = ' ' := by simpa using hc
          decide
        · exact hre.plain c hc

/-- What stands on a line, without comment and blanks around it. -/
def lineContent (raw : String) : String :=
  Text.trim (Fields.stripComment raw)

/-- What stands on lines, those with nothing on them left out. -/
def contents (raws : List String) : List String :=
  (raws.map lineContent).filter (! String.isEmpty ·)

theorem map_text_sourceLines (text : String) : (sourceLines text).map Line.text = contents (Text.lines text) := by
  rw [sourceLines, contents]
  generalize Text.lines text = lines
  generalize 1 = n
  induction lines generalizing n with
  | nil => rfl
  | cons line lines ih =>
    rw [List.zipIdx_cons, List.filterMap_cons, List.map_cons, List.filter_cons]
    simp only [lineContent]
    by_cases h : (Text.trim (Fields.stripComment line)).isEmpty
    · simpa [h] using ih (n + 1)
    · simpa [h] using ih (n + 1)

theorem lineContent_append {blanks t : String} (hb : ∀ c ∈ blanks.toList, Text.isBlank c = true ∧ c ≠ ';')
    (h : IsLine t) : lineContent (blanks ++ t) = t := by
  have hne : t.toList ≠ [] := by simpa using h.ne_empty
  have hp : ∀ c ∈ blanks.toList ++ t.toList, (c != ';') = true := by
    intro c hc
    rw [bne_iff_ne]
    rcases List.mem_append.mp hc with hc | hc
    · exact (hb c hc).2
    · rintro rfl
      exact h.plain _ hc (by simp)
  have hend : Text.trimEnd (blanks.toList ++ t.toList) = blanks.toList ++ t.toList := by
    refine Text.trimEnd_of_last ?_
    rw [List.getLast?_append_of_ne_nil _ hne]
    exact Text.last_of_trimChars h.trimmed
  have ht : Text.trimChars (blanks.toList ++ t.toList) = t.toList := by
    rw [Text.trimChars, Text.trimStart_append fun c hc => (hb c hc).1, ← Text.trimChars, h.trimmed]
  rw [lineContent, Fields.stripComment, String.toList_append, List.takeWhile_eq_self_iff.mpr hp, hend, Text.trim,
    String.toList_ofList, ht, String.ofList_toList]

theorem contents_append (as bs : List String) : contents (as ++ bs) = contents as ++ contents bs := by
  simp [contents]

/-- The lines keep their ends, and these texts stand on them. -/
structure Prints (raws texts : List String) : Prop where
  unbroken : ∀ raw ∈ raws, '\n' ∉ raw.toList ∧ '\r' ∉ raw.toList
  contents_eq : contents raws = texts

namespace Prints

variable {raws raws' texts texts' : List String} {t : String}

theorem append (h : Prints raws texts) (h' : Prints raws' texts') : Prints (raws ++ raws') (texts ++ texts') := by
  refine ⟨fun raw hraw => ?_, by rw [contents_append, h.contents_eq, h'.contents_eq]⟩
  exact (List.mem_append.mp hraw).elim (h.unbroken raw) (h'.unbroken raw)

theorem blank : Prints [""] [] := by
  refine ⟨by simp, ?_⟩
  decide

theorem indented (blanks : String) (hb : ∀ c ∈ blanks.toList, c = ' ') (h : IsLine t) :
    Prints [blanks ++ t] [t] := by
  have hco : lineContent (blanks ++ t) = t := by
    refine lineContent_append (fun c hc => ?_) h
    rw [hb c hc]
    decide
  refine ⟨?_, by simp [contents, hco, h.ne_empty]⟩
  simp only [List.mem_singleton, forall_eq, String.toList_append, List.mem_append, not_or]
  refine ⟨⟨fun hc => ?_, fun hc => h.plain _ hc (by simp)⟩, ⟨fun hc => ?_, fun hc => h.plain _ hc (by simp)⟩⟩
  · cases hb _ hc
  · cases hb _ hc

theorem line (h : IsLine t) : Prints [t] [t] := by
  simpa using indented "" (by simp) h

theorem flatMap {α : Type} {xs : List α} {f g : α → List String} (h : ∀ x ∈ xs, Prints (f x) (g x)) :
    Prints (xs.flatMap f) (xs.flatMap g) := by
  induction xs with
  | nil => exact ⟨by simp, rfl⟩
  | cons x xs ih =>
    rw [List.forall_mem_cons] at h
    exact h.1.append (ih h.2)

theorem map_text_sourceLines_unlines (h : Prints raws texts) :
    (sourceLines (Text.unlines raws)).map Line.text = texts := by
  rw [map_text_sourceLines, Text.lines_unlines fun raw hraw => (h.unbroken raw hraw).1, h.contents_eq]

theorem normalizeEnds_unlines (h : Prints raws texts) :
    Text.normalizeEnds (Text.unlines raws).toList = (Text.unlines raws).toList := by
  refine Text.normalizeEnds_of_not_mem ?_
  rw [Text.toList_unlines]
  intro hmem
  obtain ⟨raw, hraw, hc⟩ := List.mem_flatMap.mp hmem
  rcases List.mem_append.mp hc with hc | hc
  · exact (h.unbroken raw hraw).2 hc
  · revert hc
    decide

end Prints

namespace Fields

variable {c : Char} {key value w as rest tail after left inside : List Char}

/-- What may follow a word of a line: nothing, or a space. -/
def Ends (tail : List Char) : Prop :=
  ∀ c ∈ tail.head?, c = ' '

theorem Ends.isBlank (h : Ends tail) : ∀ c ∈ tail.head?, Text.isBlank c = true := by
  intro c hc
  rw [h c hc]
  decide

theorem Ends.not_isWordChar (h : Ends tail) : ∀ c ∈ tail.head?, Text.isWordChar c = false := by
  intro c hc
  rw [h c hc]
  decide

theorem scanChars_cons_of_not (h : Text.isWordChar c = false) : scanChars (c :: rest) = scanChars rest := by
  rw [scanChars]
  simp [h]

theorem scanChars_spaces (n : Nat) (cs : List Char) : scanChars (List.replicate n ' ' ++ cs) = scanChars cs := by
  induction n with
  | zero => rfl
  | succ n ih => rw [List.replicate_succ, List.cons_append, scanChars_cons_of_not (by decide), ih]

theorem dropWhile_append_of_head {p : Char → Bool} (h : ∀ c ∈ tail.head?, p c = false) (as : List Char) :
    (as ++ tail).dropWhile p = as.dropWhile p ++ tail := by
  induction as with
  | nil =>
    cases tail with
    | nil => rfl
    | cons c tail => simp [h c rfl]
  | cons a as ih =>
    by_cases ha : p a = true
    · simpa [ha] using ih
    · simp [ha]

theorem scanChars_of_word (hc : Text.isWordChar c = true) (h : ∀ after, rest.dropWhile Text.isWordChar ≠ '=' :: after) :
    scanChars (c :: rest) = scanChars (rest.dropWhile Text.isWordChar) := by
  rw [scanChars, if_pos hc]
  split
  · rename_i after ha
    exact absurd ha (h after)
  · rfl

theorem scanChars_skip (hw : '=' ∉ w) (ht : Ends tail) : scanChars (w ++ tail) = scanChars tail := by
  have hta := ht.not_isWordChar
  induction hn : w.length using Nat.strongRecOn generalizing w with
  | _ n ih =>
    cases w with
    | nil => rfl
    | cons c w =>
      rw [List.mem_cons, not_or] at hw
      by_cases hc : Text.isWordChar c = true
      · have hdr : (w ++ tail).dropWhile Text.isWordChar = w.dropWhile Text.isWordChar ++ tail :=
          dropWhile_append_of_head hta w
        have hsub : (w.dropWhile Text.isWordChar).Sublist w := List.dropWhile_sublist _
        have hno : '=' ∉ w.dropWhile Text.isWordChar := fun h => hw.2 (hsub.mem h)
        rw [List.cons_append, scanChars_of_word hc, hdr]
        · refine ih _ ?_ hno rfl
          rw [← hn, List.length_cons]
          exact Nat.lt_succ_of_le hsub.length_le
        · intro after ha
          rw [hdr] at ha
          cases hd : w.dropWhile Text.isWordChar with
          | nil =>
            rw [hd, List.nil_append] at ha
            have hsp := ht '=' (by simp [ha])
            cases hsp
          | cons d ds =>
            rw [hd, List.cons_append, List.cons.injEq] at ha
            rw [hd, List.mem_cons, not_or] at hno
            exact hno.1 ha.1.symm
      · rw [List.cons_append, scanChars_cons_of_not (by simpa using hc)]
        exact ih w.length (by simp [← hn]) hw.2 rfl

theorem scanChars_field (hkey : key ≠ []) (hw : ∀ c ∈ key, Text.isWordChar c = true)
    (hva : valueFrom after = some (value, left)) :
    scanChars (key ++ '=' :: after) = (key, value) :: scanChars left := by
  have heq : Text.isWordChar '=' = false := by decide
  cases key with
  | nil => exact absurd rfl hkey
  | cons c key =>
    rw [List.forall_mem_cons] at hw
    have hdr : (key ++ '=' :: after).dropWhile Text.isWordChar = '=' :: after := by
      rw [List.dropWhile_append_of_pos hw.2]
      simp [heq]
    have ht : (key ++ '=' :: after).takeWhile Text.isWordChar = key := by
      rw [List.takeWhile_append_of_pos hw.2]
      simp [heq]
    rw [List.cons_append, scanChars, if_pos hw.1]
    split
    · rename_i after' ha
      rw [hdr, List.cons.injEq] at ha
      obtain rfl := ha.2
      split
      · rename_i value' left' hv
        rw [hva, Option.some.injEq, Prod.mk.injEq] at hv
        rw [hv.1, hv.2, ht]
      · rename_i hv
        rw [hva] at hv
        cases hv
    · rename_i hne
      exact absurd hdr (hne after)

theorem closeQuote_append (h : ∀ c ∈ inside, c ≠ '"' ∧ c ≠ '\n') (after : List Char) :
    closeQuote (inside ++ '"' :: after) = some (inside, after) := by
  induction inside with
  | nil => rfl
  | cons c inside ih =>
    rw [List.forall_mem_cons] at h
    rw [List.cons_append, closeQuote, if_neg h.1.1, if_neg h.1.2, ih h.2]
    rfl

theorem valueFrom_quoted (h : ∀ c ∈ inside, c ≠ '"' ∧ c ≠ '\n') (after : List Char) :
    valueFrom ('"' :: inside ++ '"' :: after) = some ('"' :: inside ++ ['"'], after) := by
  simp [valueFrom, closeQuote_append h after]

theorem bareValue_append (hv : value ≠ []) (h : ∀ c ∈ value, Text.isBlank c = false) (ht : Ends tail) :
    bareValue (value ++ tail) = some (value, tail) := by
  have hp : ∀ c ∈ value, (! Text.isBlank c) = true := fun c hc => by simp [h c hc]
  have hs : tail.takeWhile (! Text.isBlank ·) = [] ∧ tail.dropWhile (! Text.isBlank ·) = tail := by
    cases tail with
    | nil => exact ⟨rfl, rfl⟩
    | cons c tail => simp [ht.isBlank c rfl]
  rw [bareValue, List.takeWhile_append_of_pos hp, List.dropWhile_append_of_pos hp, hs.1, hs.2,
    List.append_nil]
  cases value with
  | nil => exact absurd rfl hv
  | cons c value => rfl

theorem valueFrom_bare (hv : value ≠ []) (h : ∀ c ∈ value, Text.isBlank c = false ∧ c ≠ '"') (ht : Ends tail) :
    valueFrom (value ++ tail) = some (value, tail) := by
  have hb : bareValue (value ++ tail) = some (value, tail) := bareValue_append hv (fun c hc => (h c hc).1) ht
  cases value with
  | nil => exact absurd rfl hv
  | cons c value =>
    have hc : c ≠ '"' := (h c List.mem_cons_self).2
    rw [valueFrom, hb]
    intro rest he
    exact hc (List.cons.inj he).1

theorem unquoteChars_quoted (inside : List Char) : unquoteChars ('"' :: inside ++ ['"']) = inside := by
  have hq : Text.isBlank '"' = false := by decide
  have ht : Text.trimChars ('"' :: inside ++ ['"']) = '"' :: inside ++ ['"'] :=
    Text.trimChars_of_ends (by simpa using hq) (by rw [List.getLast?_concat]; simpa using hq)
  rw [unquoteChars, ht]
  simp

theorem unquoteChars_bare (h : ∀ c ∈ value, Text.isBlank c = false ∧ c ≠ '"') : unquoteChars value = value := by
  rw [unquoteChars, Text.trimChars_of_forall fun c hc => (h c hc).1]
  split
  · exact absurd rfl (h '"' List.mem_cons_self).2
  · rfl

end Fields

/-- A line on which these texts stand in order, with one or more spaces between neighbours. -/
inductive Spaced : List String → String → Prop
  | none : Spaced [] ""
  | one (t : String) : Spaced [t] t
  | more (t : String) (gap : Nat) {t' : String} {rest : List String} {line : String} : Spaced (t' :: rest) line →
      Spaced (t :: t' :: rest) (t ++ String.ofList (List.replicate (gap + 1) ' ') ++ line)

theorem spaced_join (texts : List String) : Spaced texts (Text.join " " texts) := by
  induction texts with
  | nil => exact .none
  | cons t rest ih =>
    cases rest with
    | nil => exact .one t
    | cons t' rest => exact .more t 0 ih

/-- A word of a line: one that is no field, a field with a bare value, or one with a quoted value. -/
inductive Piece where
  | plain (text : String)
  | bare (key value : String)
  | quoted (key value : String)
  deriving Repr, DecidableEq

namespace Piece

def text : Piece → String
  | plain text => text
  | bare key value => key ++ "=" ++ value
  | quoted key value => key ++ "=\"" ++ value ++ "\""

def field? : Piece → Option (String × String)
  | plain _ => none
  | bare key value => some (key, value)
  | quoted key value => some (key, value)

def IsKey (key : String) : Prop :=
  key ≠ "" ∧ ∀ c ∈ key.toList, Text.isWordChar c = true

instance (key : String) : Decidable (IsKey key) :=
  inferInstanceAs (Decidable (_ ∧ _))

def Readable : Piece → Prop
  | plain text => '=' ∉ text.toList
  | bare key value => IsKey key ∧ value ≠ "" ∧ ∀ c ∈ value.toList, Text.isBlank c = false ∧ c ≠ '"'
  | quoted key value => IsKey key ∧ ∀ c ∈ value.toList, c ≠ '"' ∧ c ≠ '\n'

/-- The field as scanning finds it, before quotes are taken off. -/
def written? : Piece → Option (List Char × List Char)
  | plain _ => none
  | bare key value => some (key.toList, value.toList)
  | quoted key value => some (key.toList, '"' :: value.toList ++ ['"'])

variable {p : Piece} {pieces : List Piece} {line : String}

theorem scanChars_append (h : p.Readable) (tail : List Char) (ht : Fields.Ends tail) :
    Fields.scanChars (p.text.toList ++ tail) = p.written?.toList ++ Fields.scanChars tail := by
  cases p with
  | plain text => exact Fields.scanChars_skip h ht
  | bare key value =>
    obtain ⟨⟨hne, hkey⟩, hv, hva⟩ := h
    have hva : Fields.valueFrom (value.toList ++ tail) = some (value.toList, tail) :=
      Fields.valueFrom_bare (by simpa using hv) hva ht
    have hs := Fields.scanChars_field (by simpa using hne) hkey hva
    simpa [text, written?] using hs
  | quoted key value =>
    obtain ⟨⟨hne, hkey⟩, hva⟩ := h
    have hs := Fields.scanChars_field (by simpa using hne) hkey (Fields.valueFrom_quoted hva tail)
    simpa [text, written?] using hs

theorem filterMap_written?_cons (p : Piece) (rest : List Piece) :
    (p :: rest).filterMap written? = p.written?.toList ++ rest.filterMap written? := by
  cases hp : p.written? <;> simp [hp]

theorem scanChars_spaced (h : ∀ p ∈ pieces, p.Readable) (hl : Spaced (pieces.map text) line) :
    Fields.scanChars line.toList = pieces.filterMap written? := by
  induction pieces generalizing line with
  | nil =>
    cases hl
    simp [Fields.scanChars]
  | cons p rest ih =>
    rw [List.forall_mem_cons] at h
    rw [filterMap_written?_cons]
    cases rest with
    | nil =>
      cases hl
      have hone := scanChars_append h.1 [] (by simp [Fields.Ends])
      simpa [Fields.scanChars] using hone
    | cons q rest =>
      cases hl with
      | @more _ gap _ _ tail htail =>
        have hends : Fields.Ends (List.replicate (gap + 1) ' ' ++ tail.toList) := by
          simp [Fields.Ends, List.replicate_succ]
        rw [String.toList_append, String.toList_append, String.toList_ofList, List.append_assoc,
          scanChars_append h.1 _ hends, Fields.scanChars_spaces, ih h.2 htail]

theorem unquote_written? (h : p.Readable) : p.written?.map (fun e =>
    (String.ofList e.1, String.ofList (Fields.unquoteChars e.2))) = p.field? := by
  cases p with
  | plain text => rfl
  | bare key value => simp [written?, field?, Fields.unquoteChars_bare h.2.2]
  | quoted key value => rw [written?, Option.map_some, Fields.unquoteChars_quoted, String.ofList_toList,
      String.ofList_toList, field?]

theorem scan_spaced (h : ∀ p ∈ pieces, p.Readable) (hl : Spaced (pieces.map text) line) :
    Fields.scan line = Table.ofEntries (pieces.filterMap field?) := by
  rw [Fields.scan, scanChars_spaced h hl, List.map_filterMap]
  congr 1
  exact List.filterMap_congr fun p hp => unquote_written? (h p hp)

theorem scan_join (h : ∀ p ∈ pieces, p.Readable) :
    Fields.scan (Text.join " " (pieces.map text)) = Table.ofEntries (pieces.filterMap field?) :=
  scan_spaced h (spaced_join _)

end Piece

end EscapeRoom

