import Calculator.Binary64.Basic

/-!
# Rounding to the nearest double

One rounding serves literals, integers and all four operators. Each of them first
finds its exact result as a quotient of two whole numbers of units, and
`Magnitude.round` then takes that quotient to the nearest magnitude, of two equally
near to the one of even rank.

The quotient decides the binade, hence the spacing; the significand is the quotient
in steps of that spacing, rounded to a whole number. Where it is rounded up to 2^53
the sum of the two parts of the rank carries into the next binade by itself. A rank
past the last one means that the result is **too large**: halfway between the largest
magnitude and the next power of two, or beyond.
-/

namespace Calculator.Binary64

/-- The whole number nearest to `num / den`, the even one of two that are equally near. -/
def nearestEven (num den : Nat) : Nat :=
  if 2 * (num % den) < den then num / den
  else if den < 2 * (num % den) then num / den + 1
  else num / den + num / den % 2

/--
The magnitude nearest to `num / den` units, the one of even rank where two are
equally near, or nothing where the quotient is too large for any.
-/
def Magnitude.round (num den : Nat) : Option Magnitude :=
  let exponent := (num / den).log2 - 52
  let rank := exponent * 0x10000000000000 + nearestEven num (den <<< exponent)
  if h : rank < 0x7FF0000000000000 then some ⟨rank, h⟩ else none

/-- The double nearest to a quotient of units, infinite where that is too large. -/
def round (negative : Bool) (num den : Nat) : Binary64 :=
  match Magnitude.round num den with
  | some m => finite negative m
  | none => infinity negative

/-- A whole number of units rounds to itself where the division leaves nothing over. -/
theorem nearestEven_mul {q den : Nat} (h : 0 < den) : nearestEven (q * den) den = q := by
  simp [nearestEven, h, Nat.mul_div_cancel q h]

/-- Rounding moves by less than one. -/
theorem le_nearestEven (num den : Nat) : num / den ≤ nearestEven num den := by
  unfold nearestEven
  split
  · exact Nat.le_refl _
  · split <;> omega

theorem nearestEven_le (num den : Nat) : nearestEven num den ≤ num / den + 1 := by
  unfold nearestEven
  split
  · omega
  · split <;> omega

/-- The units of a magnitude have as many binary digits as its exponent says. -/
theorem Magnitude.log2_units (m : Magnitude) : m.units.log2 - 52 = m.exponent := by
  have hs := m.significand_lt
  unfold units
  rw [Nat.shiftLeft_eq]
  by_cases he : m.exponent = 0
  · rw [he, Nat.pow_zero, Nat.mul_one]
    by_cases h0 : m.significand = 0
    · simp [h0]
    · have := (Nat.log2_lt h0).mpr (show m.significand < 2 ^ 53 by omega)
      omega
  · have hl := Magnitude.le_significand he
    have h0 : m.significand * 2 ^ m.exponent ≠ 0 :=
      Nat.mul_ne_zero (by omega) (Nat.ne_of_gt (Nat.two_pow_pos _))
    have h1 : m.significand * 2 ^ m.exponent < 2 ^ (53 + m.exponent) := by
      rw [Nat.pow_add]
      exact Nat.mul_lt_mul_of_pos_right hs (Nat.two_pow_pos _)
    have h2 : 2 ^ (52 + m.exponent) ≤ m.significand * 2 ^ m.exponent := by
      rw [Nat.pow_add]
      exact Nat.mul_le_mul_right _ hl
    have := (Nat.log2_lt h0).mpr h1
    have := (Nat.le_log2 h0).mpr h2
    omega

/-- **What is a magnitude already rounds to itself.** -/
theorem Magnitude.round_units (m : Magnitude) {den : Nat} (h : 0 < den) :
    Magnitude.round (m.units * den) den = some m := by
  have hd : 0 < den <<< m.exponent := by
    rw [Nat.shiftLeft_eq]
    exact Nat.mul_pos h (Nat.two_pow_pos _)
  have hn : m.units * den = m.significand * (den <<< m.exponent) := by
    unfold units
    rw [Nat.shiftLeft_eq, Nat.shiftLeft_eq, Nat.mul_assoc, Nat.mul_comm den]
  unfold Magnitude.round
  simp only
  rw [Nat.mul_div_cancel _ h, Magnitude.log2_units, hn, nearestEven_mul hd, ← Magnitude.rank_eq,
    dif_pos m.rank_lt]

end Calculator.Binary64
