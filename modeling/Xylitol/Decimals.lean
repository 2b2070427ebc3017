import Mathlib

/-!
# Decimals and their order

Numbers written with one number of digits are ordered as their digits are. The digits of a fraction
without the zeros at their end are ordered in the same way only as long as a shorter one counts as
the smaller; behind a letter, which is larger than every digit, it counts as the larger.
-/

namespace Xylitol

/-- `n` in `w` digits, which it has to fit. -/
def decimal : Nat → Nat → List Char
  | 0, _ => []
  | w + 1, n => Nat.digitChar (n / 10 ^ w) :: decimal w (n % 10 ^ w)

/-- The digits of `n / 10 ^ w` behind the point, without the zeros at their end. -/
def fraction (w n : Nat) : List Char := (decimal w n).rdropWhile (· = '0')

/-- `n` with its last `j` digits replaced by zeros. -/
def cut (j n : Nat) : Nat := n / 10 ^ j * 10 ^ j

theorem digitChar_lt_iff {a b : Nat} (ha : a < 10) (hb : b < 10) :
    Nat.digitChar a < Nat.digitChar b ↔ a < b := by
  have hlt : Nat.digitChar a < Nat.digitChar b ↔
      (Nat.digitChar a).toNat < (Nat.digitChar b).toNat := UInt32.lt_iff_toNat_lt
  rw [hlt, Nat.toNat_digitChar_of_lt_ten ha, Nat.toNat_digitChar_of_lt_ten hb]
  exact Nat.add_lt_add_iff_left

theorem digitChar_inj {a b : Nat} (ha : a < 10) (hb : b < 10) :
    Nat.digitChar a = Nat.digitChar b ↔ a = b := by
  constructor
  · intro h
    have hab : ¬ a < b := fun hlt => ((digitChar_lt_iff ha hb).mpr hlt).ne h
    have hba : ¬ b < a := fun hlt => ((digitChar_lt_iff hb ha).mpr hlt).ne h.symm
    omega
  · rintro rfl
    rfl

section

variable {w m n : Nat}

theorem div_lt_ten (hn : n < 10 ^ (w + 1)) : n / 10 ^ w < 10 := by
  rw [pow_succ] at hn
  exact Nat.div_lt_of_lt_mul hn

/-- Two numbers compare as their leading digits and then as the rest. -/
theorem lt_iff_div_mod (w m n : Nat) : m < n ↔
    m / 10 ^ w < n / 10 ^ w ∨ m / 10 ^ w = n / 10 ^ w ∧ m % 10 ^ w < n % 10 ^ w := by
  have hm := Nat.div_add_mod m (10 ^ w)
  have hn := Nat.div_add_mod n (10 ^ w)
  constructor
  · intro h
    rcases (Nat.div_le_div_right h.le : m / 10 ^ w ≤ n / 10 ^ w).lt_or_eq with hlt | heq
    · exact Or.inl hlt
    · rw [heq] at hm
      exact Or.inr ⟨heq, by omega⟩
  · rintro (h | ⟨heq, hlt⟩)
    · exact Nat.lt_of_div_lt_div h
    · rw [heq] at hm
      omega

/-- Decimals of one width, with anything behind them. -/
theorem decimal_append_lt (hm : m < 10 ^ w) (hn : n < 10 ^ w) {x y : List Char} :
    decimal w m ++ x < decimal w n ++ y ↔ m < n ∨ m = n ∧ x < y := by
  induction w generalizing m n with
  | zero =>
    have hm0 : m = 0 := by omega
    have hn0 : n = 0 := by omega
    simp [decimal, hm0, hn0]
  | succ w ih =>
    have hpos : 0 < 10 ^ w := Nat.pow_pos (by decide)
    have hdiv := Nat.div_add_mod m (10 ^ w)
    have hdiv' := Nat.div_add_mod n (10 ^ w)
    have heq : m = n ↔ m / 10 ^ w = n / 10 ^ w ∧ m % 10 ^ w = n % 10 ^ w := by
      constructor
      · rintro rfl
        exact ⟨rfl, rfl⟩
      · rintro ⟨h, h'⟩
        rw [← hdiv, ← hdiv', h, h']
    rw [decimal, decimal, List.cons_append, List.cons_append, List.cons_lt_cons_iff,
      digitChar_lt_iff (div_lt_ten hm) (div_lt_ten hn), digitChar_inj (div_lt_ten hm) (div_lt_ten hn),
      ih (Nat.mod_lt m hpos) (Nat.mod_lt n hpos), lt_iff_div_mod w m n, heq]
    tauto

/-! ## Fractions -/

theorem cut_le (j n : Nat) : cut j n ≤ n := Nat.div_mul_le_self n (10 ^ j)

theorem cut_of_lt (hn : n < 10 ^ w) : cut w n = 0 := by
  rw [cut, Nat.div_eq_of_lt hn, Nat.zero_mul]

/-- Digits cut off behind the leading one. -/
theorem cut_eq {j : Nat} (hj : j ≤ w) (n : Nat) :
    cut j n = 10 ^ w * (n / 10 ^ w) + cut j (n % 10 ^ w) := by
  obtain ⟨k, rfl⟩ := Nat.exists_eq_add_of_le hj
  have hpos : 0 < 10 ^ j := Nat.pow_pos (by decide)
  have hsplit : n = n % 10 ^ (j + k) + 10 ^ j * (10 ^ k * (n / 10 ^ (j + k))) := by
    rw [← Nat.mul_assoc, ← pow_add, Nat.add_comm]
    exact (Nat.div_add_mod n (10 ^ (j + k))).symm
  have hdiv : n / 10 ^ j = n % 10 ^ (j + k) / 10 ^ j + 10 ^ k * (n / 10 ^ (j + k)) := by
    conv_lhs => rw [hsplit]
    exact Nat.add_mul_div_left _ _ hpos
  rw [cut, cut, hdiv]
  ring

theorem rdropWhile_cons {α : Type} (p : α → Bool) (x : α) (xs : List α) :
    (x :: xs).rdropWhile p
      = if xs.rdropWhile p = [] ∧ p x then [] else x :: xs.rdropWhile p := by
  rw [List.rdropWhile, List.reverse_cons, List.dropWhile_append, List.rdropWhile]
  split
  · next hempty =>
    rw [List.isEmpty_iff.mp hempty]
    by_cases hx : p x <;> simp [hx]
  · next hempty =>
    rw [List.isEmpty_iff] at hempty
    simp [hempty]

theorem fraction_eq_nil_iff (hn : n < 10 ^ w) : fraction w n = [] ↔ n = 0 := by
  induction w generalizing n with
  | zero =>
    have hn0 : n = 0 := by omega
    simp [fraction, decimal, hn0]
  | succ w ih =>
    have hpos : 0 < 10 ^ w := Nat.pow_pos (by decide)
    have hzero : Nat.digitChar (n / 10 ^ w) = '0' ↔ n / 10 ^ w = 0 :=
      digitChar_inj (b := 0) (div_lt_ten hn) (by decide)
    have hrest := ih (Nat.mod_lt n hpos)
    have hdiv := Nat.div_add_mod n (10 ^ w)
    rw [fraction] at hrest
    rw [fraction, decimal, rdropWhile_cons]
    simp only [decide_eq_true_eq, hrest, hzero]
    split
    · next h =>
      rw [h.1, h.2] at hdiv
      simpa using hdiv.symm
    · next h =>
      simp only [List.cons_ne_nil, false_iff]
      rintro rfl
      exact h ⟨Nat.zero_mod _, Nat.zero_div _⟩

theorem fraction_zero (w : Nat) : fraction w 0 = [] :=
  (fraction_eq_nil_iff (Nat.pow_pos (by decide))).mpr rfl

theorem fraction_succ (hn : n < 10 ^ (w + 1)) (hne : n ≠ 0) :
    fraction (w + 1) n = Nat.digitChar (n / 10 ^ w) :: fraction w (n % 10 ^ w) := by
  have hsome : fraction (w + 1) n ≠ [] := fun h => hne ((fraction_eq_nil_iff hn).mp h)
  rw [fraction, decimal, rdropWhile_cons] at hsome ⊢
  split at hsome
  · exact absurd rfl hsome
  · next h => rw [if_neg h, fraction]

/-- What a number that is not zero is when it is another with digits cut off: the same leading digit,
and the rest cut off. -/
theorem exists_cut_succ_iff (hm : m ≠ 0) (hn : n < 10 ^ (w + 1)) :
    (∃ j ≤ w + 1, m = cut j n) ↔
      m / 10 ^ w = n / 10 ^ w ∧ ∃ j ≤ w, m % 10 ^ w = cut j (n % 10 ^ w) := by
  have hpos : 0 < 10 ^ w := Nat.pow_pos (by decide)
  constructor
  · rintro ⟨j, hj, rfl⟩
    have hjw : j ≤ w := by
      by_contra hlt
      have hjw : j = w + 1 := by omega
      exact hm (by rw [hjw, cut_of_lt hn])
    have hlt : cut j (n % 10 ^ w) < 10 ^ w := (cut_le j _).trans_lt (Nat.mod_lt n hpos)
    rw [cut_eq hjw]
    refine ⟨?_, j, hjw, ?_⟩
    · rw [Nat.mul_add_div hpos, Nat.div_eq_of_lt hlt, Nat.add_zero]
    · rw [Nat.mul_add_mod, Nat.mod_eq_of_lt hlt]
  · rintro ⟨hlead, j, hj, hrest⟩
    refine ⟨j, by omega, ?_⟩
    rw [cut_eq hj, ← hlead, ← hrest]
    exact (Nat.div_add_mod m (10 ^ w)).symm

theorem fraction_inj (hm : m < 10 ^ w) (hn : n < 10 ^ w) (h : fraction w m = fraction w n) :
    m = n := by
  induction w generalizing m n with
  | zero => omega
  | succ w ih =>
    have hpos : 0 < 10 ^ w := Nat.pow_pos (by decide)
    by_cases hm0 : m = 0
    · rw [hm0, fraction_zero] at h
      rw [hm0, (fraction_eq_nil_iff hn).mp h.symm]
    · have hn0 : n ≠ 0 := by
        rintro rfl
        rw [fraction_zero] at h
        exact hm0 ((fraction_eq_nil_iff hm).mp h)
      rw [fraction_succ hm hm0, fraction_succ hn hn0, List.cons.injEq,
        digitChar_inj (div_lt_ten hm) (div_lt_ten hn)] at h
      have hrest := ih (Nat.mod_lt m hpos) (Nat.mod_lt n hpos) h.2
      rw [← Nat.div_add_mod m (10 ^ w), h.1, hrest, Nat.div_add_mod]

/-- In front of a character that follows every digit, fractions are in order unless the smaller one is
the larger one cut off. -/
theorem fraction_append_lt_iff {z : Char} (hz : ∀ d < 10, Nat.digitChar d < z) (hmn : m < n)
    (hn : n < 10 ^ w) :
    fraction w m ++ [z] < fraction w n ++ [z] ↔ ¬ ∃ j ≤ w, m = cut j n := by
  induction w generalizing m n with
  | zero => omega
  | succ w ih =>
    have hpos : 0 < 10 ^ w := Nat.pow_pos (by decide)
    have hn0 : n ≠ 0 := by omega
    have hlead := div_lt_ten hn
    by_cases hm0 : m = 0
    · -- the character stands where the larger one has its first digit
      have hdigit := hz _ hlead
      rw [hm0, fraction_zero, fraction_succ hn hn0, List.nil_append, List.cons_append,
        List.cons_lt_cons_iff]
      have hno : ¬ (z < Nat.digitChar (n / 10 ^ w) ∨ z = Nat.digitChar (n / 10 ^ w) ∧
          [] < fraction w (n % 10 ^ w) ++ [z]) := by
        rintro (h | ⟨h, -⟩)
        · exact lt_asymm h hdigit
        · exact hdigit.ne h.symm
      have hcut : ∃ j ≤ w + 1, 0 = cut j n := ⟨w + 1, le_rfl, (cut_of_lt hn).symm⟩
      exact iff_of_false hno (not_not_intro hcut)
    · have hm := hmn.trans hn
      rw [fraction_succ hm hm0, fraction_succ hn hn0, List.cons_append, List.cons_append,
        List.cons_lt_cons_iff, digitChar_lt_iff (div_lt_ten hm) hlead,
        digitChar_inj (div_lt_ten hm) hlead, exists_cut_succ_iff hm0 hn]
      rcases (lt_iff_div_mod w m n).mp hmn with hlt | ⟨heq, hlt⟩
      · simp [hlt, hlt.ne]
      · rw [ih hlt (Nat.mod_lt n hpos)]
        simp [heq]

end

end Xylitol
