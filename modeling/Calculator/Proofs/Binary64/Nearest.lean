import Mathlib.Algebra.Order.Field.Basic
import Mathlib.Algebra.Order.Field.Rat
import Mathlib.Data.Rat.Cast.Defs
import Mathlib.Tactic.FieldSimp
import Mathlib.Tactic.Linarith
import Calculator.Proofs.Binary64.Whole

/-!
# What rounding rounds to

`Magnitude.round` counts in the steps of one binade. That the magnitude it comes to is the
**nearest one of all**, and not only the nearest among those that are so many steps, is what
this file is about. A magnitude of this binade or a later one is a whole number of steps, so
it is compared as such. A magnitude of an earlier binade lies below all of this one, and the
first magnitude of this one is already nearer than it.

The comparison is one of whole numbers: how far `m` is from `num / den` is read off
`m.units * den - num`. As numbers the magnitudes are rationals, and `IsNearest` says of them
what a reader would: no other is nearer, and if another one is as near, the significand is
even.

The other question is when there is no magnitude to round to. That is so from the middle
between the last magnitude and the one that would come next on: **from 2^1024 - 2^970 on**.
-/

namespace Calculator.Binary64

/-! ## The nearest whole number of steps -/

/-- **Rounding moves by half a step at most**, and by exactly half only to an even number. -/
theorem nearestEven_spec (num : Nat) {den : Nat} (hden : 0 < den) :
    2 * num ≤ 2 * (nearestEven num den * den) + den
      ∧ 2 * (nearestEven num den * den) ≤ 2 * num + den
      ∧ (2 * num = 2 * (nearestEven num den * den) + den
          ∨ 2 * (nearestEven num den * den) = 2 * num + den → nearestEven num den % 2 = 0) := by
  have hnum : num / den * den + num % den = num := Nat.div_add_mod' num den
  have hrest : num % den < den := Nat.mod_lt num hden
  have hnext : (num / den + 1) * den = num / den * den + den := Nat.succ_mul _ _
  unfold nearestEven
  split
  · omega
  · split
    · omega
    · -- the quotient lies in the middle, and the parity decides
      rcases Nat.mod_two_eq_zero_or_one (num / den) with hpar | hpar <;> rw [hpar]
      · rw [Nat.add_zero]
        omega
      · omega

/-- Two numbers of steps are a step or more apart. -/
theorem step_le_of_ne {k q : Nat} (h : k ≠ q) (den : Nat) :
    k * den + den ≤ q * den ∨ q * den + den ≤ k * den := by
  rw [← Nat.succ_mul, ← Nat.succ_mul]
  exact (Nat.lt_or_gt_of_ne h).imp (Nat.mul_le_mul_right den) (Nat.mul_le_mul_right den)

/-- **No number of steps is nearer.** -/
theorem abs_nearestEven_le (num k : Nat) {den : Nat} (hden : 0 < den) :
    |(nearestEven num den * den - num : ℤ)| ≤ |(k * den - num : ℤ)| := by
  obtain ⟨hlow, hhigh, _⟩ := nearestEven_spec num hden
  by_cases hk : k = nearestEven num den
  · rw [hk]
  · have hstep := step_le_of_ne hk den
    generalize nearestEven num den = q at hlow hhigh hstep ⊢
    rw [abs_le]
    rcases abs_cases (k * den - num : ℤ) with ⟨habs, _⟩ | ⟨habs, _⟩ <;> omega

/-- **If another one is as near, the result is even.** -/
theorem even_nearestEven {num k den : Nat} (hden : 0 < den) (hk : k ≠ nearestEven num den)
    (h : |(k * den - num : ℤ)| = |(nearestEven num den * den - num : ℤ)|) :
    nearestEven num den % 2 = 0 := by
  obtain ⟨hlow, hhigh, heven⟩ := nearestEven_spec num hden
  have hstep := step_le_of_ne hk den
  generalize nearestEven num den = q at h hlow hhigh heven hstep ⊢
  refine heven ?_
  rcases abs_cases (k * den - num : ℤ) with ⟨habs, _⟩ | ⟨habs, _⟩ <;>
    rcases abs_cases (q * den - num : ℤ) with ⟨habs', _⟩ | ⟨habs', _⟩ <;> omega

namespace Magnitude

/-! ## The nearest magnitude -/

theorem units_injective {m n : Magnitude} (h : m.units = n.units) : m = n :=
  Magnitude.ext (Nat.le_antisymm (units_le_units_iff.mp (Nat.le_of_eq h))
    (units_le_units_iff.mp (Nat.le_of_eq h.symm)))

/-- From a binade on, all magnitudes are whole numbers of its steps. -/
theorem exists_units_mul_eq {n : Magnitude} {b : Nat} (h : b ≤ n.exponent) (den : Nat) :
    ∃ k, n.units = k <<< b ∧ n.units * den = k * (den <<< b) := by
  refine ⟨n.significand <<< (n.exponent - b), ?_, ?_⟩
  · rw [units, ← Nat.shiftLeft_add, Nat.sub_add_cancel h]
  · have hexp : 2 ^ n.exponent = 2 ^ (n.exponent - b) * 2 ^ b := by
      rw [← Nat.pow_add, Nat.sub_add_cancel h]
    rw [units_mul_eq]
    simp only [Nat.shiftLeft_eq, hexp]
    rw [Nat.mul_assoc, Nat.mul_left_comm den]

theorem rank_of_round {num den : Nat} {m : Magnitude} (h : round num den = some m) :
    m.rank = roundedRank num den := by
  rw [round_eq] at h
  split at h
  · cases h
    rfl
  · cases h

/-- The significand of what is rounded to is as even as the number of steps. -/
theorem significand_mod_two_of_round {num den : Nat} {m : Magnitude}
    (h : round num den = some m) :
    m.significand % 2 = nearestEven num (den <<< binade num den) % 2 := by
  have hrank := rank_of_round h
  rw [m.rank_eq, roundedRank] at hrank
  omega

section

variable {num den : Nat} {m : Magnitude}

theorem units_mul_of_round (hden : 0 < den) (h : round num den = some m) :
    m.units * den = nearestEven num (den <<< binade num den) * (den <<< binade num den) := by
  rw [units_of_round hden h]
  simp only [Nat.shiftLeft_eq]
  rw [Nat.mul_assoc, Nat.mul_comm den]

/-- What lies below the binade is farther away than what is rounded to. -/
theorem abs_round_lt (hden : 0 < den) (h : round num den = some m) {n : Magnitude}
    (hn : n.exponent < binade num den) :
    |(m.units * den - num : ℤ)| < |(n.units * den - num : ℤ)| := by
  have hfirst : 0x10000000000000 * (den <<< binade num den) ≤ num :=
    le_of_binade_pos hden (Nat.ne_zero_of_lt hn)
  have hbelow : n.units * den < 0x10000000000000 * (den <<< binade num den) :=
    units_mul_lt hn hden
  have hstep : 0 < den <<< binade num den := Nat.shiftLeft_pos_iff.mpr hden
  have hle := abs_nearestEven_le num 0x10000000000000 hstep
  rw [← Nat.cast_mul, ← units_mul_of_round hden h, Nat.cast_mul] at hle
  refine lt_of_le_of_lt hle ?_
  rw [abs_of_nonpos (by omega), abs_of_nonpos (by omega)]
  omega

/-- **No magnitude is nearer** than the one that is rounded to. How far a magnitude is from
the quotient is counted in parts of a unit, `den` of which make one. -/
theorem abs_round_le (hden : 0 < den) (h : round num den = some m) (n : Magnitude) :
    |(m.units * den - num : ℤ)| ≤ |(n.units * den - num : ℤ)| := by
  rcases Nat.lt_or_ge n.exponent (binade num den) with hlt | hge
  · exact le_of_lt (abs_round_lt hden h hlt)
  · obtain ⟨k, _, hk⟩ := exists_units_mul_eq hge den
    have hstep : 0 < den <<< binade num den := Nat.shiftLeft_pos_iff.mpr hden
    have hle := abs_nearestEven_le num k hstep
    rw [← Nat.cast_mul, ← units_mul_of_round hden h, ← Nat.cast_mul, ← hk] at hle
    exact_mod_cast hle

/-- **If another magnitude is as near, the significand is even.** -/
theorem even_round (hden : 0 < den) (h : round num den = some m) {n : Magnitude} (hne : n ≠ m)
    (heq : |(n.units * den - num : ℤ)| = |(m.units * den - num : ℤ)|) :
    m.significand % 2 = 0 := by
  rw [significand_mod_two_of_round h]
  rcases Nat.lt_or_ge n.exponent (binade num den) with hlt | hge
  · exact absurd heq (ne_of_gt (abs_round_lt hden h hlt))
  · obtain ⟨k, hunits, hk⟩ := exists_units_mul_eq hge den
    refine even_nearestEven (k := k) (Nat.shiftLeft_pos_iff.mpr hden) ?_ ?_
    · rintro rfl
      exact hne (units_injective (hunits.trans (units_of_round hden h).symm))
    · rw [← Nat.cast_mul, ← Nat.cast_mul, ← units_mul_of_round hden h, ← hk]
      exact_mod_cast heq

end

/-! ## Magnitudes as numbers -/

/-- The number itself. -/
def toRat (m : Magnitude) : ℚ := m.units / (1 <<< fractionPlaces : ℕ)

/-- The magnitude is the one **nearest to `q`**, of two that are equally near the even one. -/
structure IsNearest (m : Magnitude) (q : ℚ) : Prop where
  le : ∀ n : Magnitude, |m.toRat - q| ≤ |n.toRat - q|
  even : ∀ n : Magnitude, n ≠ m → |n.toRat - q| = |m.toRat - q| → m.significand % 2 = 0

/-- The quotient of units `num / den` as a number. -/
def quotient (num den : Nat) : ℚ := num / (den * (1 <<< fractionPlaces : ℕ))

theorem den_units_pos {den : Nat} (hden : 0 < den) :
    (0 : ℚ) < den * (1 <<< fractionPlaces : ℕ) := by
  exact_mod_cast Nat.mul_pos hden one_units_pos

theorem abs_toRat_sub (m : Magnitude) (num : Nat) {den : Nat} (hden : 0 < den) :
    |m.toRat - quotient num den|
      = (|(m.units * den - num : ℤ)| : ℤ) / (den * (1 <<< fractionPlaces : ℕ)) := by
  have hone := one_units_pos
  unfold toRat quotient
  generalize 1 <<< fractionPlaces = one at hone ⊢
  have hdenpos : (0 : ℚ) < den := by exact_mod_cast hden
  have honepos : (0 : ℚ) < one := by exact_mod_cast hone
  have hsub : (m.units / one - num / (den * one) : ℚ)
      = (m.units * den - num : ℤ) / (den * one) := by
    push_cast
    field_simp
  rw [hsub, abs_div, abs_of_pos (mul_pos hdenpos honepos), Int.cast_abs]

/-- **Rounding goes to the nearest magnitude.** -/
theorem isNearest_of_round {num den : Nat} {m : Magnitude} (hden : 0 < den)
    (h : round num den = some m) : m.IsNearest (quotient num den) := by
  have hpos := den_units_pos hden
  constructor
  · intro n
    rw [abs_toRat_sub m num hden, abs_toRat_sub n num hden, div_le_div_iff_of_pos_right hpos]
    exact_mod_cast abs_round_le hden h n
  · intro n hne heq
    rw [abs_toRat_sub m num hden, abs_toRat_sub n num hden, div_left_inj' (ne_of_gt hpos)] at heq
    exact even_round hden h hne (by exact_mod_cast heq)

/-- One in units, as a number. -/
theorem one_units_ne_zero : ((1 <<< fractionPlaces : ℕ) : ℚ) ≠ 0 := by
  exact_mod_cast Nat.ne_of_gt one_units_pos

/-- A whole number is so many ones. -/
theorem quotient_shiftLeft (n : Nat) (den : Nat) :
    quotient (n <<< fractionPlaces) den = n / den := by
  have hone := one_units_ne_zero
  have hmul : n <<< fractionPlaces = n * 1 <<< fractionPlaces := by
    rw [Nat.shiftLeft_eq, Nat.one_shiftLeft]
  unfold quotient
  rw [hmul]
  generalize 1 <<< fractionPlaces = one at hone ⊢
  push_cast
  rw [mul_div_mul_right _ _ hone]

theorem isNearest_of_round_whole {n : Nat} {m : Magnitude}
    (h : round (n <<< fractionPlaces) 1 = some m) : m.IsNearest n := by
  have hnear := isNearest_of_round Nat.one_pos h
  rwa [quotient_shiftLeft, Nat.cast_one, div_one] at hnear

/-- A magnitude that is a whole number is the nearest to it. -/
theorem isNearest_of_units {n : Nat} {m : Magnitude} (h : m.units = n <<< fractionPlaces) :
    m.IsNearest n := by
  refine isNearest_of_round_whole ?_
  rw [← h, ← Nat.mul_one m.units]
  exact round_units m Nat.one_pos

theorem isNearest_zero : zero.IsNearest (0 : ℕ) :=
  isNearest_of_units (by rw [Nat.zero_shiftLeft]; decide)

/-- A larger rank is a larger number. -/
theorem toRat_lt_toRat {m n : Magnitude} (h : m.rank < n.rank) : m.toRat < n.toRat := by
  have hone := one_units_pos
  have hunits : m.units < n.units :=
    Nat.lt_of_not_le fun hle => Nat.not_le_of_lt h (units_le_units_iff.mp hle)
  unfold toRat
  generalize 1 <<< fractionPlaces = one at hone ⊢
  rw [div_lt_div_iff_of_pos_right (by exact_mod_cast hone)]
  exact_mod_cast hunits

theorem rank_mod_two (m : Magnitude) : m.rank % 2 = m.significand % 2 := by
  have hrank := m.rank_eq
  omega

/-- Between two even ranks is an odd one, and it is nearer to the middle. -/
theorem IsNearest.not_lt {m n : Magnitude} {q : ℚ} (hm : m.IsNearest q) (hn : n.IsNearest q) :
    ¬ m.rank < n.rank := by
  intro hlt
  have hdist : |n.toRat - q| = |m.toRat - q| := le_antisymm (hn.le m) (hm.le n)
  have hmeven := hm.even n (fun h => Nat.ne_of_gt hlt (congrArg rank h)) hdist
  have hneven := hn.even m (fun h => Nat.ne_of_lt hlt (congrArg rank h)) hdist.symm
  rw [← rank_mod_two] at hmeven hneven
  let k : Magnitude := ⟨m.rank + 1, Nat.lt_of_le_of_lt hlt n.rank_lt⟩
  have hk : |m.toRat - q| ≤ |k.toRat - q| := hm.le k
  have hmk : m.toRat < k.toRat := toRat_lt_toRat (Nat.lt_succ_self _)
  have hkn : k.toRat < n.toRat := toRat_lt_toRat (show m.rank + 1 < n.rank by omega)
  rcases abs_cases (m.toRat - q) with ⟨_, _⟩ | ⟨_, _⟩ <;>
    rcases abs_cases (n.toRat - q) with ⟨_, _⟩ | ⟨_, _⟩ <;>
    rcases abs_cases (k.toRat - q) with ⟨_, _⟩ | ⟨_, _⟩ <;> linarith

/-- **There is only one nearest magnitude.** -/
theorem IsNearest.unique {m n : Magnitude} {q : ℚ} (hm : m.IsNearest q) (hn : n.IsNearest q) :
    m = n :=
  Magnitude.ext
    (Nat.le_antisymm (Nat.le_of_not_lt (hn.not_lt hm)) (Nat.le_of_not_lt (hm.not_lt hn)))

/-! ## Where no magnitude is left -/

section

variable {num den : Nat}

/-- How far the rank goes that a quotient is rounded to. -/
theorem round_eq_none_iff_rank :
    round num den = none ↔ 0x7FF0000000000000 ≤ roundedRank num den := by
  rw [round_eq]
  split
  · rename_i h
    simp only [reduceCtorEq, false_iff, Nat.not_le, h]
  · rename_i h
    simp only [Nat.not_lt.mp h]

/-- **Half a step in front of its end a binade rounds up**: there the even number is the end. -/
theorem le_nearestEven_iff (num : Nat) {den : Nat} (hden : 0 < den) :
    0x20000000000000 ≤ nearestEven num den ↔ 0x3FFFFFFFFFFFFF * den ≤ 2 * num := by
  obtain ⟨hlow, hhigh, heven⟩ := nearestEven_spec num hden
  generalize nearestEven num den = q at hlow hhigh heven ⊢
  -- the last number of steps, with which all of this is compared
  have hend : 0x20000000000000 * den = 0x1FFFFFFFFFFFFF * den + den := Nat.succ_mul _ den
  have hmiddle : 0x3FFFFFFFFFFFFF * den = 2 * (0x1FFFFFFFFFFFFF * den) + den := by
    rw [← Nat.mul_assoc, ← Nat.succ_mul]
  constructor
  · intro hq
    have hmul := Nat.mul_le_mul_right den hq
    generalize 0x1FFFFFFFFFFFFF * den = last at hend hmiddle
    omega
  · intro hnum
    refine Nat.le_of_not_lt fun hq => ?_
    have hle : q ≤ 0x1FFFFFFFFFFFFF := Nat.le_of_lt_succ hq
    have hmul := Nat.mul_le_mul_right den hle
    -- it can only be that last one, in the middle, and it is odd
    have heq : q * den = 0x1FFFFFFFFFFFFF * den := by
      generalize 0x1FFFFFFFFFFFFF * den = last at hmiddle hmul ⊢
      omega
    have hodd : q = 0x1FFFFFFFFFFFFF := Nat.eq_of_mul_eq_mul_right hden heq
    rw [hmiddle, ← heq] at hnum
    have hpar := heven (.inl (Nat.le_antisymm hlow hnum))
    rw [hodd] at hpar
    cases hpar

/-- **No magnitude is left** from 2^54 - 1 times the number 2^2044 of units on. -/
theorem round_eq_none_iff (hden : 0 < den) :
    round num den = none ↔ 0x3FFFFFFFFFFFFF * (den <<< 2044) ≤ num := by
  have hstep : 0 < den <<< binade num den := Nat.shiftLeft_pos_iff.mpr hden
  have hend := le_of_binade num hden
  have hlast := nearestEven_le_of_le_mul hstep hend
  rw [round_eq_none_iff_rank, roundedRank]
  rcases Nat.lt_trichotomy (binade num den) 2045 with hlt | heq | hgt
  · -- an earlier binade than the last ends before that
    have hmono := shiftLeft_mono_right den (Nat.le_of_lt_succ hlt)
    generalize den <<< 2044 = step at hmono ⊢
    omega
  · have hdouble : den <<< 2045 = 2 * (den <<< 2044) := Nat.shiftLeft_succ den 2044
    have hiff := le_nearestEven_iff num hstep
    rw [heq, hdouble] at hiff hlast
    rw [heq, hdouble]
    generalize den <<< 2044 = step at hiff hlast ⊢
    omega
  · have hfirst := le_of_binade_pos hden (Nat.ne_zero_of_lt hgt)
    have hsig := le_nearestEven_of_mul_le hstep hfirst
    have hmono := shiftLeft_mono_right den hgt
    rw [Nat.succ_eq_add_one, Nat.shiftLeft_succ, Nat.shiftLeft_succ] at hmono
    generalize den <<< 2044 = step at hmono ⊢
    omega

end

/-- 2^1024 - 2^970, the middle between the largest magnitude and 2^1024. -/
def overflowLimit : Nat := 1 <<< 1024 - 1 <<< 970

theorem units_overflowLimit :
    0x3FFFFFFFFFFFFF * (1 <<< 2044) = overflowLimit <<< fractionPlaces := by
  decide +kernel

/-- **A whole number is too large** exactly from there on. -/
theorem round_whole_eq_none_iff {n : Nat} :
    round (n <<< fractionPlaces) 1 = none ↔ overflowLimit ≤ n := by
  rw [round_eq_none_iff Nat.one_pos, units_overflowLimit, Nat.shiftLeft_eq, Nat.shiftLeft_eq]
  exact Nat.mul_le_mul_right_iff (Nat.two_pow_pos _)

/-- **And so is any quotient.** -/
theorem round_eq_none_iff_le_quotient {num den : Nat} (hden : 0 < den) :
    round num den = none ↔ (overflowLimit : ℚ) ≤ quotient num den := by
  have hshift : ∀ a k : Nat, a <<< k = a * 1 <<< k := fun a k => by
    rw [Nat.shiftLeft_eq, Nat.one_shiftLeft]
  have hunits : 0x3FFFFFFFFFFFFF * (den <<< 2044)
      = overflowLimit * (den * 1 <<< fractionPlaces) := by
    rw [hshift den, Nat.mul_left_comm, units_overflowLimit, hshift overflowLimit,
      Nat.mul_left_comm]
  rw [round_eq_none_iff hden, hunits, quotient, le_div_iff₀ (den_units_pos hden)]
  exact_mod_cast Iff.rfl

end Magnitude

end Calculator.Binary64
