import Mathlib.Tactic.GCongr
import Mathlib.Tactic.Positivity
import Mathlib.Tactic.Ring
import Calculator.Proofs.Binary64.Operations

/-!
# How accurate a double is

A number that is neither very large nor very small is rounded to a double that differs from it
by **one part in 2^53 at the most**. Errors of that kind are measured against the number itself,
and so they add up in products and quotients, whatever the factors are. In a sum they do so
only if nothing cancels.

`Within ε x y` says that `x` is `y` but for such an error, and `Moderate k q` that `q` lies
between 2^-k and 2^k, or is zero.
-/

namespace Calculator

/-- The number `x` is `y`, up to the part `ε` of `y`. -/
def Within (ε x y : ℚ) : Prop := |x - y| ≤ ε * |y|

/-- The number is zero, or its size lies between 2^-k and 2^k. -/
structure Moderate (k : ℕ) (q : ℚ) : Prop where
  le : |q| ≤ 2 ^ k
  ge : q ≠ 0 → 1 ≤ 2 ^ k * |q|

/-! ## Relative errors -/

namespace Within

variable {ε δ x y a b : ℚ}

theorem mono (h : Within ε x y) (hle : ε ≤ δ) : Within δ x y :=
  le_trans h (mul_le_mul_of_nonneg_right hle (abs_nonneg y))

theorem abs_le (h : Within ε x y) : |x| ≤ (1 + ε) * |y| := by
  have htriangle := abs_sub_abs_le_abs_sub x y
  unfold Within at h
  linarith

theorem le_abs (h : Within ε x y) : (1 - ε) * |y| ≤ |x| := by
  have htriangle := abs_sub_abs_le_abs_sub y x
  rw [abs_sub_comm] at htriangle
  unfold Within at h
  linarith

theorem trans (h : Within ε x y) (hε : 0 ≤ ε) (h' : Within δ y a) :
    Within (ε + δ + ε * δ) x a := by
  have hy := mul_le_mul_of_nonneg_left h'.abs_le hε
  calc |x - a| ≤ |x - y| + |y - a| := abs_sub_le x y a
    _ ≤ ε * |y| + δ * |a| := add_le_add h h'
    _ ≤ ε * ((1 + δ) * |a|) + δ * |a| := by linarith
    _ = (ε + δ + ε * δ) * |a| := by ring

theorem neg (h : Within ε x a) : Within ε (-x) (-a) := by
  unfold Within
  rw [← neg_sub', abs_neg, abs_neg]
  exact h

/-- **Where nothing cancels** the errors of a sum are parts of the sum. -/
theorem add (hx : Within ε x a) (hy : Within ε y b) (hab : |a + b| = |a| + |b|) :
    Within ε (x + y) (a + b) := by
  calc |x + y - (a + b)| = |(x - a) + (y - b)| := by rw [add_sub_add_comm]
    _ ≤ |x - a| + |y - b| := abs_add_le _ _
    _ ≤ ε * |a| + ε * |b| := add_le_add hx hy
    _ = ε * |a + b| := by rw [hab, mul_add]

theorem sub (hx : Within ε x a) (hy : Within ε y b) (hab : |a - b| = |a| + |b|) :
    Within ε (x - y) (a - b) := by
  rw [sub_eq_add_neg, sub_eq_add_neg]
  refine hx.add hy.neg ?_
  rw [← sub_eq_add_neg, hab, abs_neg]

/-- The errors of a product add up. -/
theorem mul (hx : Within ε x a) (hε : 0 ≤ ε) (hy : Within δ y b) :
    Within (ε + δ + ε * δ) (x * y) (a * b) := by
  have hsize := mul_le_mul_of_nonneg_left hy.abs_le (mul_nonneg hε (abs_nonneg a))
  calc |x * y - a * b| = |(x - a) * y + a * (y - b)| := by congr 1; ring
    _ ≤ |x - a| * |y| + |a| * |y - b| := by
        rw [← abs_mul, ← abs_mul]
        exact abs_add_le _ _
    _ ≤ ε * |a| * |y| + |a| * (δ * |b|) :=
        add_le_add (mul_le_mul_of_nonneg_right hx (abs_nonneg y))
          (mul_le_mul_of_nonneg_left hy (abs_nonneg a))
    _ ≤ ε * |a| * ((1 + δ) * |b|) + |a| * (δ * |b|) := by linarith
    _ = (ε + δ + ε * δ) * |a * b| := by rw [abs_mul]; ring

/-- And those of a quotient, where the divisor may have come out smaller than it is. -/
theorem div (hx : Within ε x a) (hε : 0 ≤ ε) (hy : Within δ y b) (hδ : 0 ≤ δ) (hδ1 : δ < 1)
    (hb : b ≠ 0) : Within ((ε + δ) / (1 - δ)) (x / y) (a / b) := by
  have hpos : 0 < 1 - δ := by linarith
  have hsize := hy.le_abs
  have hy0 : y ≠ 0 := by
    rintro rfl
    rw [abs_zero] at hsize
    exact absurd hsize (not_le_of_gt (mul_pos hpos (abs_pos.mpr hb)))
  have hab : |a| = |a / b| * |b| := by rw [← abs_mul, div_mul_cancel₀ a hb]
  have herror : |x - a - a / b * (y - b)| ≤ (ε + δ) * |a / b| * |b| := by
    calc |x - a - a / b * (y - b)| ≤ |x - a| + |a / b| * |y - b| := by
          rw [← abs_mul]
          exact abs_sub _ _
      _ ≤ ε * |a| + |a / b| * (δ * |b|) :=
          add_le_add hx (mul_le_mul_of_nonneg_left hy (abs_nonneg _))
      _ = (ε + δ) * |a / b| * |b| := by rw [hab]; ring
  have hquot : x / y - a / b = (x - a - a / b * (y - b)) / y := by
    field_simp
    ring
  unfold Within
  rw [hquot, abs_div, div_le_iff₀ (abs_pos.mpr hy0)]
  calc |x - a - a / b * (y - b)| ≤ (ε + δ) * |a / b| * |b| := herror
    _ = (ε + δ) / (1 - δ) * (1 - δ) * |a / b| * |b| := by
        rw [div_mul_cancel₀ _ hpos.ne']
    _ = (ε + δ) / (1 - δ) * |a / b| * ((1 - δ) * |b|) := by ring
    _ ≤ (ε + δ) / (1 - δ) * |a / b| * |y| := by
        refine mul_le_mul_of_nonneg_left hsize (mul_nonneg ?_ (abs_nonneg _))
        exact div_nonneg (add_nonneg hε hδ) hpos.le

end Within

/-! ## Moderate numbers -/

namespace Moderate

variable {j k : ℕ} {a b : ℚ}

theorem mono (h : Moderate j a) (hjk : j ≤ k) : Moderate k a := by
  have hpow : (2 : ℚ) ^ j ≤ 2 ^ k := pow_le_pow_right₀ (by norm_num) hjk
  exact ⟨h.le.trans hpow,
    fun hne => (h.ge hne).trans (mul_le_mul_of_nonneg_right hpow (abs_nonneg a))⟩

/-- A whole number is never too small. -/
theorem of_int {z : ℤ} (h : |z| ≤ 2 ^ k) : Moderate k z := by
  refine ⟨by exact_mod_cast h, fun hne => ?_⟩
  have hone : (1 : ℚ) ≤ |(z : ℚ)| := by
    have hz : 1 ≤ |z| := Int.one_le_abs (by exact_mod_cast hne)
    exact_mod_cast hz
  calc (1 : ℚ) ≤ |(z : ℚ)| := hone
    _ = 1 * |(z : ℚ)| := (one_mul _).symm
    _ ≤ 2 ^ k * |(z : ℚ)| :=
        mul_le_mul_of_nonneg_right (one_le_pow₀ one_le_two) (abs_nonneg _)

theorem mul (ha : Moderate j a) (hb : Moderate k b) : Moderate (j + k) (a * b) := by
  constructor
  · rw [abs_mul, pow_add]
    exact mul_le_mul ha.le hb.le (abs_nonneg b) (by positivity)
  · intro hne
    obtain ⟨ha0, hb0⟩ := mul_ne_zero_iff.mp hne
    calc (1 : ℚ) = 1 * 1 := (one_mul 1).symm
      _ ≤ 2 ^ j * |a| * (2 ^ k * |b|) :=
          mul_le_mul (ha.ge ha0) (hb.ge hb0) zero_le_one (by positivity)
      _ = 2 ^ (j + k) * |a * b| := by rw [abs_mul, pow_add]; ring

theorem inv (h : Moderate k a) : Moderate k a⁻¹ := by
  by_cases ha : a = 0
  · rwa [ha, inv_zero, ← ha]
  · have hpos : 0 < |a| := abs_pos.mpr ha
    rw [← div_one a⁻¹]
    refine ⟨?_, fun _ => ?_⟩ <;> rw [div_one, abs_inv]
    · exact (inv_le_iff_one_le_mul₀ hpos).mpr (h.ge ha)
    · rw [← div_eq_mul_inv, one_le_div hpos]
      exact h.le

theorem div (ha : Moderate j a) (hb : Moderate k b) : Moderate (j + k) (a / b) := by
  rw [div_eq_mul_inv]
  exact ha.mul hb.inv

/-- What differs little from a moderate number is one. -/
theorem of_within {ε : ℚ} (h : Within ε a b) (hε : ε ≤ 1 / 2) (hb : Moderate k b) :
    Moderate (k + 1) a := by
  have hhalf := h.mono hε
  have habove := hhalf.abs_le
  have hbelow := hhalf.le_abs
  have hnonneg := abs_nonneg b
  refine ⟨?_, fun hne => ?_⟩
  · have hle := hb.le
    rw [pow_succ]
    linarith
  · have hb0 : b ≠ 0 := by
      rintro rfl
      rw [abs_zero, mul_zero] at habove
      exact hne (abs_nonpos_iff.mp habove)
    calc (1 : ℚ) ≤ 2 ^ k * |b| := hb.ge hb0
      _ ≤ 2 ^ k * (2 * |a|) := by gcongr; linarith
      _ = 2 ^ (k + 1) * |a| := by ring

end Moderate

/-! ## Rounding -/

namespace Binary64

/-- **A quotient with a full significand** is rounded by one part in 2^53 at the most. -/
theorem Magnitude.abs_sub_le_of_round {num den : Nat} {m : Magnitude} (hden : 0 < den)
    (hfull : 0x10000000000000 * den ≤ num) (h : round num den = some m) :
    0x20000000000000 * |(m.units * den - num : ℤ)| ≤ num := by
  have hpos : 0 < den <<< binade num den := Nat.shiftLeft_pos_iff.mpr hden
  obtain ⟨hlow, hhigh, _⟩ := nearestEven_spec num hpos
  rw [← units_mul_of_round hden h] at hlow hhigh
  -- a step of the binade is one part in 2^52
  have hstep : 0x10000000000000 * (den <<< binade num den) ≤ num := by
    by_cases hb : binade num den = 0
    · rw [hb, Nat.shiftLeft_zero]
      exact hfull
    · exact le_of_binade_pos hden hb
  generalize den <<< binade num den = step at hlow hhigh hstep
  have hup : 2 * (m.units * den - num : ℤ) ≤ step := by omega
  have hdown : 2 * -(m.units * den - num : ℤ) ≤ step := by omega
  rcases abs_cases (m.units * den - num : ℤ) with ⟨habs, _⟩ | ⟨habs, _⟩ <;> rw [habs] <;> omega

theorem Magnitude.within_of_round {num den : Nat} {m : Magnitude} (hden : 0 < den)
    (hfull : 0x10000000000000 * den ≤ num) (h : round num den = some m) :
    Within (1 / 2 ^ 53) m.toRat (quotient num den) := by
  have hpos := den_units_pos hden
  have herror : ((0x20000000000000 * |(m.units * den - num : ℤ)| : ℤ) : ℚ) ≤ (num : ℤ) :=
    Int.cast_le.mpr (abs_sub_le_of_round hden hfull h)
  rw [Int.cast_mul, Int.cast_ofNat, Int.cast_natCast] at herror
  rw [Within, m.abs_toRat_sub num hden, abs_of_nonneg (quotient_nonneg num den), quotient,
    ← mul_div_assoc, div_le_div_iff_of_pos_right hpos, one_div, inv_mul_eq_div,
    le_div_iff₀' (by positivity), show (2 : ℚ) ^ 53 = 0x20000000000000 by norm_num]
  exact herror

theorem le_shiftLeft_of_le_mul {den num k : Nat} (j : Nat) (h : den ≤ 2 ^ k * num) :
    2 ^ j * den ≤ num <<< (j + k) := by
  calc 2 ^ j * den ≤ 2 ^ j * (2 ^ k * num) := Nat.mul_le_mul_left _ h
    _ = num <<< (j + k) := by
      rw [Nat.shiftLeft_eq, ← Nat.mul_assoc, ← Nat.pow_add, Nat.mul_comm]

/-- **From 2^-1022 on** significands are full, and some magnitude differs that little. -/
theorem Magnitude.exists_within {q : ℚ} (hge : 1 ≤ 2 ^ 1022 * q) (hlt : q < overflowLimit) :
    ∃ m : Magnitude, Within (1 / 2 ^ 53) m.toRat q := by
  have hpos : 0 < q := pos_of_mul_pos_right (lt_of_lt_of_le one_pos hge) (by positivity)
  have hq : q = (q.num.natAbs : ℚ) / q.den := by
    rw [Nat.cast_natAbs, abs_of_pos (Rat.num_pos.mpr hpos), Rat.num_div_den]
  have hden : 0 < q.den := q.den_pos
  generalize q.num.natAbs = num at hq
  generalize q.den = den at hq hden
  have hquot : quotient (num <<< fractionPlaces) den = q := by rw [quotient_shiftLeft, hq]
  cases hround : Magnitude.round (num <<< fractionPlaces) den with
  | none =>
      rw [round_eq_none_iff_le_quotient hden, hquot] at hround
      exact absurd hlt (not_lt_of_ge hround)
  | some m =>
      have hnum : den ≤ 2 ^ 1022 * num := by
        have hdenpos : (0 : ℚ) < den := by exact_mod_cast hden
        rw [hq, ← mul_div_assoc, one_le_div hdenpos] at hge
        exact_mod_cast hge
      have hfull : 0x10000000000000 * den ≤ num <<< fractionPlaces := by
        rw [show 0x10000000000000 = 2 ^ 52 by decide, show fractionPlaces = 52 + 1022 by decide]
        exact le_shiftLeft_of_le_mul 52 hnum
      exact ⟨m, hquot ▸ within_of_round hden hfull hround⟩

/-- **A moderate number is rounded by one part in 2^53** at the most. -/
theorem Rounded.within {q : ℚ} {x : Binary64} (h : Rounded q x) (hq : Moderate 1022 q) :
    x.isFinite ∧ Within (1 / 2 ^ 53) x.toRat q := by
  have hlimit : (2 ^ 1022 : ℕ) < Magnitude.overflowLimit := by decide +kernel
  have hlt : |q| < Magnitude.overflowLimit :=
    lt_of_le_of_lt hq.le (by exact_mod_cast hlimit)
  cases h with
  | tooLarge hle => exact absurd hlt (not_lt_of_ge hle)
  | nearest _ hx =>
      refine ⟨hx.isFinite, ?_⟩
      by_cases hzero : q = 0
      · have hle := hx.le (finite false .zero) rfl
        rw [hzero, toRat_zero, sub_zero, sub_zero, abs_zero] at hle
        rw [Within, hzero, sub_zero, abs_zero, mul_zero]
        exact hle
      · obtain ⟨m, hm⟩ := Magnitude.exists_within (hq.ge hzero) hlt
        calc |x.toRat - q| ≤ |(finite (decide (q < 0)) m).toRat - q| := hx.le _ rfl
          _ = |m.toRat - (|q| : ℚ)| := abs_toRat_finite_sub (withSign_abs q) m
          _ ≤ 1 / 2 ^ 53 * |q| := by rwa [Within, abs_abs] at hm

end Binary64

end Calculator
