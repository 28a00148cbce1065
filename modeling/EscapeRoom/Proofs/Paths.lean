import Mathlib.Data.List.Basic
import EscapeRoom.Path
import EscapeRoom.Text.Identifier

/-!
# Parts of paths

Joining two paths puts the parts of the second after those of the first, unless the second is absolute. A
directory that a path names has all its parts but the last. No slash comes into a name when it is lowered or
stripped.
-/

namespace EscapeRoom

namespace Text

variable {sep c : Char} {cs as bs part : List Char}

theorem partsOf_ne_nil (sep : Char) (cs : List Char) : partsOf sep cs ≠ [] := by
  cases cs with
  | nil => simp [partsOf]
  | cons c rest =>
    rw [partsOf]
    split
    · simp
    · split
      · simp
      · simp

theorem partsOf_cons (sep c : Char) (cs : List Char) : ∃ part parts, partsOf sep cs = part :: parts ∧
    partsOf sep (c :: cs) = if c = sep then [] :: part :: parts else (c :: part) :: parts := by
  obtain ⟨part, parts, h⟩ := List.exists_cons_of_ne_nil (partsOf_ne_nil sep cs)
  refine ⟨part, parts, h, ?_⟩
  rw [partsOf, h]

theorem partsOf_append (sep : Char) (as bs : List Char) :
    partsOf sep (as ++ sep :: bs) = partsOf sep as ++ partsOf sep bs := by
  induction as with
  | nil =>
    obtain ⟨part, parts, h, hc⟩ := partsOf_cons sep sep bs
    simp [hc, h, partsOf]
  | cons c as ih =>
    obtain ⟨part, parts, h, hc⟩ := partsOf_cons sep c as
    obtain ⟨part', parts', h', hc'⟩ := partsOf_cons sep c (as ++ sep :: bs)
    rw [ih, h, List.cons_append, List.cons.injEq] at h'
    obtain ⟨rfl, rfl⟩ := h'
    rw [List.cons_append, hc', hc]
    split
    · rfl
    · rfl

theorem partsOf_of_not_mem (h : sep ∉ cs) : partsOf sep cs = [cs] := by
  induction cs with
  | nil => rfl
  | cons c cs ih =>
    rw [List.mem_cons, not_or] at h
    rw [partsOf, ih h.2]
    simp [Ne.symm h.1]

theorem not_mem_of_mem_partsOf (h : part ∈ partsOf sep cs) : sep ∉ part := by
  induction cs generalizing part with
  | nil =>
    rw [partsOf, List.mem_singleton] at h
    simp [h]
  | cons c cs ih =>
    obtain ⟨first, parts, hp, hco⟩ := partsOf_cons sep c cs
    rw [hp] at ih
    rw [hco] at h
    split at h
    · rcases List.mem_cons.mp h with rfl | h
      · simp
      · exact ih h
    · rename_i hc
      rcases List.mem_cons.mp h with rfl | h
      · rw [List.mem_cons, not_or]
        exact ⟨Ne.symm hc, ih List.mem_cons_self⟩
      · exact ih (List.mem_cons_of_mem _ h)

theorem ofNat_ne_slash {n : Nat} (h : n ≠ 47) : Char.ofNat n ≠ '/' := by
  intro heq
  by_cases hv : n.isValidChar
  · rw [Char.ofNat, dif_pos hv] at heq
    exact h (congrArg Char.toNat heq)
  · rw [Char.ofNat, dif_neg hv] at heq
    cases heq

theorem first_add_shift_of_mem_lowerRuns : ∀ r ∈ lowerRuns, 47 < (r.first : Int) + r.shift := by
  decide +kernel

theorem shiftBy_lowerRuns_ne {n : Nat} (h : 128 ≤ n) : shiftBy lowerRuns n ≠ 47 := by
  unfold shiftBy
  split
  · rename_i r hr
    have hc := List.find?_some hr
    have hs := first_add_shift_of_mem_lowerRuns r (List.mem_of_find?_eq_some hr)
    simp only [CaseRun.covers, Bool.and_eq_true, decide_eq_true_eq] at hc
    omega
  · omega

theorem slash_not_mem_lowerChar (h : c ≠ '/') : '/' ∉ lowerChar c := by
  unfold lowerChar
  split
  · rw [List.mem_singleton]
    split
    · rename_i hc
      rw [Bool.and_eq_true, decide_eq_true_eq] at hc
      have hu : 65 ≤ c.toNat := hc.1
      exact Ne.symm (ofNat_ne_slash (by omega))
    · exact Ne.symm h
  · split
    · decide
    · rename_i hc _
      rw [List.mem_singleton]
      exact Ne.symm (ofNat_ne_slash (shiftBy_lowerRuns_ne (by omega)))

theorem slash_not_mem_lowerFrom (before : List Char) (h : '/' ∉ cs) : '/' ∉ lowerFrom before cs := by
  induction cs generalizing before with
  | nil => simp [lowerFrom]
  | cons c cs ih =>
    rw [List.mem_cons, not_or] at h
    rw [lowerFrom, List.mem_append, not_or]
    refine ⟨?_, ih (c :: before) h.2⟩
    split
    · split
      · decide
      · decide
    · exact slash_not_mem_lowerChar (Ne.symm h.1)

theorem slash_not_mem_lower {s : String} (h : '/' ∉ s.toList) : '/' ∉ (lower s).toList := by
  rw [lower, String.toList_ofList]
  exact slash_not_mem_lowerFrom [] h

theorem mem_of_mem_dropUnderscores (h : c ∈ dropUnderscores cs) : c ∈ cs := by
  have h := List.mem_reverse.mp h
  have h := List.mem_reverse.mp ((List.dropWhile_suffix _).subset h)
  exact (List.dropWhile_suffix _).subset h

theorem slash_not_mem_joinWords (inside : Bool) (cs : List Char) : '/' ∉ joinWords inside cs := by
  induction cs generalizing inside with
  | nil => simp [joinWords]
  | cons c cs ih =>
    rw [joinWords]
    split
    · rename_i hc
      rw [List.mem_cons, not_or]
      refine ⟨?_, ih false⟩
      rintro rfl
      exact absurd hc (by decide)
    · split
      · exact ih true
      · rw [List.mem_cons, not_or]
        exact ⟨by decide, ih true⟩

theorem slash_not_mem_slug {instead : String} (h : '/' ∉ instead.toList) (name : String) :
    '/' ∉ (slug instead name).toList := by
  unfold slug
  dsimp only
  split
  · exact h
  · apply slash_not_mem_lower
    rw [String.toList_ofList]
    intro hs
    exact slash_not_mem_joinWords _ _ (mem_of_mem_dropUnderscores hs)

theorem getLast?_partsOf (h : cs.getLast? = some c) (hc : c ≠ sep) :
    ∃ parts part, partsOf sep cs = parts ++ [part] ∧ part.getLast? = some c := by
  induction cs with
  | nil => cases h
  | cons d cs ih =>
    obtain ⟨first, rest, hp, hco⟩ := partsOf_cons sep d cs
    cases cs with
    | nil =>
      obtain rfl : d = c := by simpa using h
      exact ⟨[], [d], by simp [partsOf, hc], rfl⟩
    | cons e cs =>
      obtain ⟨parts, part, hl, hpa⟩ := ih (by simpa using h)
      rw [hp] at hl
      rw [hco]
      split
      · exact ⟨[] :: parts, part, by rw [hl, List.cons_append], hpa⟩
      · cases parts with
        | nil =>
          obtain ⟨rfl, rfl⟩ : first = part ∧ rest = [] := by simpa using hl
          exact ⟨[], d :: first, rfl, by rw [List.getLast?_cons, hpa]; rfl⟩
        | cons first' parts =>
          obtain ⟨rfl, rfl⟩ : first = first' ∧ rest = parts ++ [part] := by simpa using hl
          exact ⟨(d :: first) :: parts, part, rfl, hpa⟩

end Text

namespace Path

variable {a b c : String} {names : List String}

/-- A directory with a slash after it, unless it is the working directory. -/
def slashed (a : String) : String :=
  if a.isEmpty || a.toList.getLast? = some '/' then a else a ++ "/"

theorem join_of_isAbsolute (h : isAbsolute b = true) : join a b = b := by
  rw [join, if_pos h]

theorem join_of_relative (h : isAbsolute b = false) : join a b = slashed a ++ b := by
  rw [join, if_neg (by simp [h]), slashed]
  split
  · rfl
  · rfl

theorem components_eq (p : String) :
    components p = ((Text.partsOf '/' p.toList).map String.ofList).filter fun c => !c.isEmpty && c != "." := rfl

theorem components_append_slash (a b : String) : components (a ++ "/" ++ b) = components a ++ components b := by
  have h : (a ++ "/" ++ b).toList = a.toList ++ '/' :: b.toList := by simp
  rw [components_eq, h, Text.partsOf_append, List.map_append, List.filter_append, ← components_eq,
    ← components_eq]

@[simp] theorem components_empty : components "" = [] := rfl

theorem slashed_cases (a : String) : slashed a = "" ∧ a = "" ∨
    ∃ b, slashed a = b ++ "/" ∧ components b = components a := by
  unfold slashed
  split
  · rename_i h
    rw [Bool.or_eq_true, decide_eq_true_eq, String.isEmpty_iff] at h
    rcases h with rfl | h
    · exact .inl ⟨rfl, rfl⟩
    · obtain ⟨init, hi⟩ := List.getLast?_eq_some_iff.mp h
      have ha : a = String.ofList init ++ "/" := by
        apply String.toList_injective
        simp [hi]
      refine .inr ⟨String.ofList init, ha, ?_⟩
      conv_rhs => rw [ha, ← String.append_empty (s := String.ofList init ++ "/"), components_append_slash]
      simp
  · exact .inr ⟨a, rfl, rfl⟩

theorem components_join (h : isAbsolute b = false) : components (join a b) = components a ++ components b := by
  rw [join_of_relative h]
  rcases slashed_cases a with ⟨ha, rfl⟩ | ⟨a', ha, hs⟩
  · rw [ha]
    simp
  · rw [ha, components_append_slash, hs]

theorem suffix_join (a b : String) : b.toList <:+ (join a b).toList := by
  cases hb : isAbsolute b with
  | true => simp [join_of_isAbsolute hb]
  | false =>
    rw [join_of_relative hb, String.toList_append]
    exact List.suffix_append _ _

theorem components_of_name (h : '/' ∉ a.toList) (hne : a ≠ "") (hdot : a ≠ ".") : components a = [a] := by
  rw [components_eq, Text.partsOf_of_not_mem h]
  simp [hne, hdot]

theorem exists_components_eq {c : Char} (h : a.toList.getLast? = some c) (hs : c ≠ '/') (hdot : c ≠ '.') :
    ∃ front name, components a = front ++ [name] ∧ name.toList.getLast? = some c := by
  obtain ⟨parts, part, hp, hpa⟩ := Text.getLast?_partsOf h hs
  refine ⟨(parts.map String.ofList).filter fun c => !c.isEmpty && c != ".", String.ofList part, ?_, by simpa using hpa⟩
  have hne : part ≠ [] := by
    rintro rfl
    cases hpa
  have hone : String.ofList part ≠ "." := by
    intro heq
    obtain rfl : part = ['.'] := by simpa using congrArg String.toList heq
    exact hdot (by simpa using hpa.symm)
  rw [components_eq, hp, List.map_append, List.filter_append]
  simp [hne, hone]

theorem not_slash_of_mem_components (h : a ∈ components b) : '/' ∉ a.toList := by
  rw [components_eq, List.mem_filter, List.mem_map] at h
  obtain ⟨⟨part, hp, rfl⟩, -⟩ := h
  simpa using Text.not_mem_of_mem_partsOf hp

theorem isAbsolute_eq_false (h : '/' ∉ a.toList) : isAbsolute a = false := by
  unfold isAbsolute
  cases hcs : a.toList with
  | nil => rfl
  | cons c cs =>
    rw [hcs, List.mem_cons, not_or] at h
    simp [Ne.symm h.1]

theorem isAbsolute_append (h : a ≠ "") : isAbsolute (a ++ b) = isAbsolute a := by
  unfold isAbsolute
  cases hcs : a.toList with
  | nil => exact absurd (String.toList_eq_nil_iff.mp hcs) h
  | cons c cs => simp [hcs]

theorem isAbsolute_join (ha : isAbsolute a = true) (b : String) : isAbsolute (join a b) = true := by
  have hne : a ≠ "" := by
    rintro rfl
    cases ha
  cases hb : isAbsolute b with
  | true => rw [join_of_isAbsolute hb, hb]
  | false =>
    rw [join_of_relative hb, slashed]
    split
    · rw [isAbsolute_append hne, ha]
    · rw [String.append_assoc, isAbsolute_append hne, ha]

theorem isAbsolute_join_of_relative (a : String) (hb : isAbsolute b = false) :
    isAbsolute (join a b) = isAbsolute a := by
  by_cases ha : a = ""
  · rw [ha, join_of_relative hb]
    exact hb
  · rw [join_of_relative hb, slashed]
    split
    · rw [isAbsolute_append ha]
    · rw [String.append_assoc, isAbsolute_append ha]

theorem slashed_of_last (hne : a ≠ "") (h : a.toList.getLast? ≠ some '/') : slashed a = a ++ "/" := by
  rw [slashed, if_neg]
  simp [hne, h]

theorem join_join (hb : isAbsolute b = false) (hne : b ≠ "") (hl : b.toList.getLast? ≠ some '/')
    (hc : isAbsolute c = false) : join (join a b) c = join a (b ++ "/" ++ c) := by
  have hbc : isAbsolute (b ++ "/" ++ c) = false := by
    rw [String.append_assoc, isAbsolute_append hne, hb]
  rw [join_of_relative hc, join_of_relative hb, join_of_relative hbc, slashed_of_last]
  · simp only [String.append_assoc]
  · simp [hne]
  · obtain ⟨init, last, hb'⟩ := (List.eq_nil_or_concat' b.toList).resolve_left (by simpa using hne)
    simp [hb'] at hl ⊢
    exact hl

theorem slash_not_mem_lastName (p : String) : '/' ∉ (lastName p).toList := by
  unfold lastName
  cases h : (components p).getLast? with
  | none => simp
  | some name => exact not_slash_of_mem_components (List.mem_of_getLast? h)

theorem slash_not_mem_stem (p : String) : '/' ∉ (stem p).toList := by
  unfold stem splitSuffix
  dsimp only
  split
  · rw [String.toList_ofList]
    intro h
    exact slash_not_mem_lastName p (List.mem_of_mem_take h)
  · rw [String.toList_ofList]
    exact slash_not_mem_lastName p

def AreNames (names : List String) : Prop :=
  ∀ name ∈ names, '/' ∉ name.toList ∧ name ≠ "" ∧ name ≠ "."

theorem areNames_components (p : String) : AreNames (components p) := by
  intro name hn
  refine ⟨not_slash_of_mem_components hn, ?_⟩
  rw [components_eq, List.mem_filter] at hn
  simpa using hn.2

theorem components_joined (h : AreNames names) : components (Text.join "/" names) = names := by
  induction names with
  | nil => rfl
  | cons name rest ih =>
    obtain ⟨⟨hs, hne, hdot⟩, hr⟩ := List.forall_mem_cons.mp h
    cases rest with
    | nil => exact components_of_name hs hne hdot
    | cons next rest =>
      rw [Text.join, components_append_slash, components_of_name hs hne hdot, ih hr]
      · rfl
      · simp

theorem isAbsolute_joined (h : AreNames names) : isAbsolute (Text.join "/" names) = false := by
  cases names with
  | nil => rfl
  | cons name rest =>
    obtain ⟨⟨hs, hne, -⟩, -⟩ := List.forall_mem_cons.mp h
    cases rest with
    | nil => exact isAbsolute_eq_false hs
    | cons next rest =>
      rw [Text.join, String.append_assoc, isAbsolute_append hne, isAbsolute_eq_false hs]
      simp

theorem leadingSlashes_cases (p : String) : isAbsolute p = false ∧ leadingSlashes p = "" ∨
    isAbsolute p = true ∧ (leadingSlashes p = "/" ∨ leadingSlashes p = "//") := by
  unfold isAbsolute leadingSlashes
  split
  · rename_i h
    simp [h]
  · rename_i h
    simp [h]
  · rename_i h
    simp [h]
  · rename_i h
    left
    refine ⟨decide_eq_false fun hf => ?_, rfl⟩
    obtain ⟨rest, hr⟩ := List.head?_eq_some_iff.mp hf
    exact h rest hr

theorem components_leading (p a : String) : components (leadingSlashes p ++ a) = components a := by
  rcases leadingSlashes_cases p with ⟨-, h⟩ | ⟨-, h | h⟩
  · rw [h, String.empty_append]
  · rw [h]
    exact components_append_slash "" a
  · rw [h]
    exact components_append_slash "/" a

theorem isAbsolute_leading (p : String) (h : isAbsolute a = false) :
    isAbsolute (leadingSlashes p ++ a) = isAbsolute p := by
  rcases leadingSlashes_cases p with ⟨hp, hl⟩ | ⟨hp, hl | hl⟩
  · rw [hl, String.empty_append, h, hp]
  · rw [hl, hp, isAbsolute_append (by decide)]
    rfl
  · rw [hl, hp, isAbsolute_append (by decide)]
    rfl

theorem tidy_spec (p : String) : components (tidy p) = components p ∧ isAbsolute (tidy p) = isAbsolute p := by
  have hn := areNames_components p
  have hc := (components_leading p (Text.join "/" (components p))).trans (components_joined hn)
  have ha := isAbsolute_leading p (isAbsolute_joined hn)
  unfold tidy
  dsimp only
  split
  · rename_i he
    rw [String.isEmpty_iff] at he
    rw [he] at hc ha
    exact ⟨hc, ha⟩
  · exact ⟨hc, ha⟩

theorem AreNames.dropLast (h : AreNames names) : AreNames names.dropLast :=
  fun name hn => h name ((List.dropLast_sublist names).subset hn)

theorem components_parent (p : String) : components (parent p) = (components p).dropLast := by
  rw [parent, (tidy_spec _).1, components_leading, components_joined (areNames_components p).dropLast]

theorem isAbsolute_parent (p : String) : isAbsolute (parent p) = isAbsolute p := by
  rw [parent, (tidy_spec _).2, isAbsolute_leading p (isAbsolute_joined (areNames_components p).dropLast)]

end Path

end EscapeRoom
