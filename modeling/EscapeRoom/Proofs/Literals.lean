import Mathlib.Algebra.Group.Int.Defs
import EscapeRoom.Number.Literal

/-!
# Numbers and their texts

The decimal text of a number is read as that number, with a base mark allowed or not, as long as it has no
more digits than a literal may have.
-/

namespace EscapeRoom.Number

variable {c : Char} {cs : List Char} {digits : List Nat} {base : Base} {n : Nat}

/-- The number has no more digits than a literal may have. -/
def Writable (z : Int) : Prop :=
  (Nat.toDigits 10 z.natAbs).length ≤ maxDigits

instance (z : Int) : Decidable (Writable z) :=
  inferInstanceAs (Decidable (_ ≤ _))

theorem not_writable_pow : ¬Writable (10 ^ maxDigits) := by
  have hl : ∀ k, 0 < k → ¬(Nat.toDigits 10 ((10 : Int) ^ k).natAbs).length ≤ k := by
    intro k hk
    rw [Int.natAbs_pow, Nat.length_toDigits_le_iff (by decide) hk]
    exact Nat.lt_irrefl _
  exact hl maxDigits (by decide)

theorem toNat_bounds_of_isDigit (h : c.isDigit = true) : 48 ≤ c.toNat ∧ c.toNat ≤ 57 := by
  simp only [Char.isDigit, Bool.and_eq_true, decide_eq_true_eq] at h
  exact ⟨h.1, h.2⟩

theorem plainChar_of_isDigit (h : c.isDigit = true) : plainChar c = c := by
  have := toNat_bounds_of_isDigit h
  rw [plainChar, if_pos (by omega)]

theorem not_isPlainBlank_of_isDigit (h : c.isDigit = true) : isPlainBlank c = false := by
  have hb := toNat_bounds_of_isDigit h
  have hsp : c ≠ ' ' := by rintro rfl; revert hb; decide
  simp only [isPlainBlank, Bool.or_eq_false_iff, Bool.and_eq_false_iff, decide_eq_false_iff_not]
  exact ⟨hsp, by omega⟩

theorem digitIn?_of_isDigit (h : c.isDigit = true) : digitIn? 10 c = some (c.toNat - 48) := by
  have hb := toNat_bounds_of_isDigit h
  have hle : '0' ≤ c ∧ c ≤ '9' := ⟨hb.1, hb.2⟩
  simp only [digitIn?, hle.1, hle.2, decide_true, Bool.and_self, if_true]
  rw [if_pos (by omega)]

theorem digitsFrom_of_isDigit (h : ∀ c ∈ cs, c.isDigit = true) :
    digitsFrom 10 digits cs = some (digits.reverse ++ cs.map (·.toNat - 48), []) := by
  induction cs generalizing digits with
  | nil => simp [digitsFrom]
  | cons c cs ih =>
    rw [List.forall_mem_cons] at h
    have hu : c ≠ '_' := by rintro rfl; exact absurd h.1 (by decide)
    have hs : digitsFrom 10 digits (c :: cs) = digitsFrom 10 ((c.toNat - 48) :: digits) cs := by
      rw [digitsFrom.eq_def]
      split
      · rename_i c' rest he
        exact absurd (List.cons.inj he).1 hu
      · rename_i c' rest _ he
        obtain ⟨rfl, rfl⟩ := List.cons.inj he
        rw [digitIn?_of_isDigit h.1]
      · rename_i he
        cases he
    rw [hs, ih h.2]
    simp

theorem digitsValue_map (cs : List Char) :
    digitsValue 10 (cs.map (·.toNat - 48)) = Nat.ofDigitChars 10 cs 0 := by
  rw [digitsValue, List.foldl_map, Nat.ofDigitChars_eq_foldl]
  congr 1
  funext n c
  rw [Nat.mul_comm]
  rfl

def digitsOf (n : Nat) : Numeral :=
  ⟨10, (Nat.toDigits 10 n).map (·.toNat - 48), []⟩

theorem plainNumeral?_toDigits (n : Nat) : plainNumeral? 10 (Nat.toDigits 10 n) = some (digitsOf n) := by
  have hd : ∀ c ∈ Nat.toDigits 10 n, c.isDigit = true := fun c hc =>
    Nat.isDigit_of_mem_toDigits (by decide) (by decide) hc
  rw [plainNumeral?, digitsFrom_of_isDigit hd]
  rfl

theorem head_toDigits (n : Nat) : n = 0 ∨ ∀ rest, Nat.toDigits 10 n ≠ '0' :: rest := by
  induction n using Nat.strongRecOn with
  | _ n ih =>
    by_cases hn : n < 10
    · rw [Nat.toDigits_of_lt_base hn]
      by_cases h0 : n = 0
      · exact .inl h0
      · refine .inr fun rest he => h0 ?_
        simpa using (List.cons.inj he).1
    · refine .inr fun rest he => ?_
      rw [Nat.toDigits_of_base_le (by decide) (by omega)] at he
      rcases ih (n / 10) (by omega) with h | h
      · omega
      · cases hd : Nat.toDigits 10 (n / 10) with
        | nil => exact Nat.toDigits_ne_nil hd
        | cons c cs =>
          rw [hd, List.cons_append, List.cons.injEq] at he
          exact h cs (by rw [hd, he.1])

theorem numeral?_marked (h : ∀ rest, cs ≠ '0' :: rest) : numeral? .marked cs = plainNumeral? 10 cs := by
  rw [numeral?]
  · rintro m rest rfl
    exact h (m :: rest) rfl

theorem numeral?_toDigits (hb : base ≠ .hexadecimal) (n : Nat) :
    numeral? base (Nat.toDigits 10 n) = some (digitsOf n) := by
  cases base with
  | hexadecimal => exact absurd rfl hb
  | decimal => exact plainNumeral?_toDigits n
  | marked =>
    rcases head_toDigits n with rfl | h
    · rfl
    · rw [numeral?_marked h, plainNumeral?_toDigits]

theorem map_plainChar (h : ∀ c ∈ cs, c.isDigit = true) : cs.map plainChar = cs := by
  rw [List.map_congr_left fun c hc => plainChar_of_isDigit (h c hc), List.map_id']

theorem literalSign_digits (h : ∀ c ∈ cs, c.isDigit = true) : literalSign cs = (1, cs) := by
  rw [literalSign.eq_def]
  split
  · exact absurd (h _ List.mem_cons_self) (by decide)
  · exact absurd (h _ List.mem_cons_self) (by decide)
  · rfl

theorem dropWhile_isPlainBlank (h : ∀ c ∈ cs, c.isDigit = true) : cs.dropWhile isPlainBlank = cs := by
  cases cs with
  | nil => rfl
  | cons c cs => simp [not_isPlainBlank_of_isDigit (h c List.mem_cons_self)]

theorem mem_toString {z : Int} (h : c ∈ (toString z).toList) : c = '-' ∨ c.isDigit = true := by
  cases z with
  | ofNat n =>
    have ht : (toString (Int.ofNat n)).toList = Nat.toDigits 10 n := Nat.toList_repr
    rw [ht] at h
    exact .inr (Nat.isDigit_of_mem_toDigits (by decide) (by decide) h)
  | negSucc n =>
    have ht : (toString (Int.negSucc n)).toList = '-' :: Nat.toDigits 10 (n + 1) := by
      show ("-" ++ Nat.repr (n + 1)).toList = _
      simp
    rw [ht, List.mem_cons] at h
    exact h.imp_right fun h => Nat.isDigit_of_mem_toDigits (by decide) (by decide) h

theorem toString_ne_empty (z : Int) : toString z ≠ "" := by
  cases z with
  | ofNat n => exact Nat.repr_ne_empty
  | negSucc n =>
    show "-" ++ Nat.repr (n + 1) ≠ ""
    simp

theorem literalSign_toString (z : Int) :
    literalSign (((toString z).toList.map plainChar).dropWhile isPlainBlank) =
      (if z < 0 then -1 else 1, Nat.toDigits 10 z.natAbs) := by
  have hd : ∀ n, ∀ c ∈ Nat.toDigits 10 n, c.isDigit = true := fun n c hc =>
    Nat.isDigit_of_mem_toDigits (by decide) (by decide) hc
  cases z with
  | ofNat n =>
    have ht : (toString (Int.ofNat n)).toList = Nat.toDigits 10 n := Nat.toList_repr
    rw [ht, map_plainChar (hd n), dropWhile_isPlainBlank (hd n), literalSign_digits (hd n)]
    simp
  | negSucc n =>
    have ht : (toString (Int.negSucc n)).toList = '-' :: Nat.toDigits 10 (n + 1) := by
      show ("-" ++ Nat.repr (n + 1)).toList = _
      simp
    have hm : plainChar '-' = '-' ∧ isPlainBlank '-' = false := by decide
    rw [ht, List.map_cons, hm.1, map_plainChar (hd _)]
    simp [hm.2, literalSign]

theorem parseLiteral_toString (hb : base ≠ .hexadecimal) (z : Int) :
    parseLiteral base (toString z) =
      if Writable z then .ok z else .error (.tooLong (Nat.toDigits 10 z.natAbs).length) := by
  have hlen : (digitsOf z.natAbs).digits.length = (Nat.toDigits 10 z.natAbs).length := List.length_map _
  have hv : digitsValue 10 (digitsOf z.natAbs).digits = z.natAbs := by
    rw [digitsOf, digitsValue_map, Nat.ofDigitChars_ten_toDigits]
  have hs : (if z < 0 then -1 else 1) * ((z.natAbs : Nat) : Int) = z := by
    split <;> omega
  rw [parseLiteral, literalSign_toString]
  simp only [numeral?_toDigits hb]
  by_cases h : Writable z
  · rw [if_pos h, if_neg, if_neg, show (digitsOf z.natAbs).base = 10 from rfl, hv, hs]
    · simp [digitsOf]
    · rw [Bool.and_eq_true, decide_eq_true_eq, decide_eq_true_eq, hlen]
      exact fun hl => Nat.not_lt.mpr h hl.2
  · rw [if_neg h, if_pos, hlen]
    rw [Bool.and_eq_true, decide_eq_true_eq, decide_eq_true_eq, hlen]
    exact ⟨rfl, Nat.not_le.mp h⟩

end EscapeRoom.Number
