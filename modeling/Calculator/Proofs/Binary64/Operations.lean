import Calculator.Proofs.Binary64.Nearest
import Calculator.Proofs.Expression.Exact

/-!
# Operations on doubles are exact operations, rounded

Each operation on doubles counts in units and rounds once at the end. What this comes to can
be said without units: **the result is the double nearest to what the operation gives on the
numbers themselves**, and an infinity from 2^1024 - 2^970 on. The same is true of a whole
number that becomes a double.

`Rounded` says of a double that it is what rounding makes of a rational number. It does not ask
for the sign of a zero, since both zeros are the same number.
-/

namespace Calculator

namespace Binary64

/-! ## Doubles as numbers -/

/-- The number with the sign in front. -/
def withSign (negative : Bool) (q : ℚ) : ℚ := if negative then -q else q

/-- The number that a finite double is. -/
def toRat : Binary64 → ℚ
  | finite s m => withSign s m.toRat
  | _ => 0

/-- The last binary digit of the significand is 0. -/
def IsEven : Binary64 → Prop
  | finite _ m => m.significand % 2 = 0
  | _ => False

/-- The double is the one **nearest to `q`**, of two numbers that are equally near the even one. -/
structure IsNearest (x : Binary64) (q : ℚ) : Prop where
  isFinite : x.isFinite
  le : ∀ y : Binary64, y.isFinite → |x.toRat - q| ≤ |y.toRat - q|
  even : ∀ y : Binary64, y.isFinite → y.toRat ≠ x.toRat →
    |y.toRat - q| = |x.toRat - q| → x.IsEven

/-- What rounding makes of a number. -/
inductive Rounded (q : ℚ) : Binary64 → Prop where
  | nearest {x : Binary64} : |q| < Magnitude.overflowLimit → x.IsNearest q → Rounded q x
  | tooLarge {s : Bool} : (Magnitude.overflowLimit : ℚ) ≤ |q| → Rounded q (infinity s)

theorem withSign_neg (s : Bool) (q : ℚ) : withSign (!s) q = -withSign s q := by
  cases s <;> simp [withSign]

theorem abs_withSign (s : Bool) (q : ℚ) : |withSign s q| = |q| := by
  cases s <;> simp [withSign]

theorem withSign_sub (s : Bool) (a b : ℚ) :
    withSign s (a - b) = withSign s a - withSign s b := by
  cases s
  · simp [withSign]
  · exact neg_sub' a b

theorem withSign_mul (s t : Bool) (a b : ℚ) :
    withSign (s ^^ t) (a * b) = withSign s a * withSign t b := by
  cases s <;> cases t <;> simp [withSign]

theorem withSign_div (s t : Bool) (a b : ℚ) :
    withSign (s ^^ t) (a / b) = withSign s a / withSign t b := by
  cases s <;> cases t <;> simp [withSign, neg_div, div_neg]

theorem withSign_abs (q : ℚ) : withSign (decide (q < 0)) |q| = q := by
  by_cases hq : q < 0
  · simp [withSign, hq, abs_of_neg hq]
  · simp [withSign, hq, abs_of_nonneg (not_lt.mp hq)]

theorem withSign_natAbs (z : ℤ) : withSign (decide (z < 0)) (z.natAbs : ℚ) = z := by
  have habs := withSign_abs z
  rw [← Int.cast_abs, ← Nat.cast_natAbs] at habs
  simpa only [Int.cast_lt_zero] using habs

theorem toRat_negate (x : Binary64) : x.negate.toRat = -x.toRat := by
  cases x with
  | finite s m => exact withSign_neg s m.toRat
  | _ => simp [negate, toRat]

theorem Magnitude.toRat_nonneg (m : Magnitude) : 0 ≤ m.toRat := by
  unfold toRat
  positivity

theorem abs_toRat_finite (s : Bool) (m : Magnitude) : |(finite s m).toRat| = m.toRat := by
  rw [toRat, abs_withSign, abs_of_nonneg m.toRat_nonneg]

theorem toRat_zero (s : Bool) : (finite s .zero).toRat = 0 := by
  have hzero : Magnitude.zero.toRat = 0 := by
    have hunits : Magnitude.zero.units = 0 := by decide
    rw [Magnitude.toRat, hunits]
    simp
  cases s <;> simp [toRat, withSign, hzero]

/-! ## Rounding -/

/-- With the sign of the number a double is as far from it as their magnitudes are. -/
theorem abs_toRat_finite_sub {s : Bool} {q : ℚ} (hs : withSign s |q| = q) (m : Magnitude) :
    |(finite s m).toRat - q| = |m.toRat - (|q| : ℚ)| := by
  conv_lhs => rw [toRat, ← hs, ← withSign_sub, abs_withSign]

/-- And with the other sign it is no nearer. -/
theorem abs_toRat_sub_abs_le (s : Bool) (m : Magnitude) (q : ℚ) :
    |m.toRat - (|q| : ℚ)| ≤ |(finite s m).toRat - q| := by
  have habs := abs_abs_sub_abs_le (finite s m).toRat q
  rwa [abs_toRat_finite] at habs

theorem toRat_finite_of_ne {s t : Bool} (h : s ≠ t) (m : Magnitude) :
    (finite t m).toRat = -(finite s m).toRat := by
  cases s <;> cases t <;> simp [toRat, withSign] at h ⊢

/-- Next to zero is only zero. -/
theorem Magnitude.IsNearest.toRat_eq_zero {m : Magnitude} (h : m.IsNearest 0) : m.toRat = 0 := by
  have hle := h.le .zero
  have hzero := toRat_zero false
  rw [Binary64.toRat, withSign, if_neg Bool.false_ne_true] at hzero
  rw [hzero, sub_zero, sub_zero, abs_zero, abs_of_nonneg m.toRat_nonneg] at hle
  exact le_antisymm hle m.toRat_nonneg

/-- **With both signs as near** a number is zero. -/
theorem toRat_eq_zero_of_abs_sub_eq {s : Bool} {m : Magnitude} {q : ℚ} (h : m.IsNearest |q|)
    (heq : |-(finite s m).toRat - q| = |(finite s m).toRat - q|) : (finite s m).toRat = 0 := by
  rcases abs_eq_abs.mp heq with heq | heq
  · linarith
  · have hq : q = 0 := by linarith
    rw [hq, abs_zero] at h
    exact abs_eq_zero.mp ((abs_toRat_finite s m).trans h.toRat_eq_zero)

/-- **The nearest magnitude with the sign** of the number is the nearest double. -/
theorem isNearest_finite {s : Bool} {m : Magnitude} {q : ℚ} (h : m.IsNearest |q|)
    (hs : withSign s |q| = q) : (finite s m).IsNearest q := by
  have hdist := abs_toRat_finite_sub hs m
  refine ⟨rfl, fun y hy => ?_, fun y hy hne heq => ?_⟩
  · obtain ⟨t, n, rfl⟩ := isFinite_iff.mp hy
    rw [hdist]
    exact (h.le n).trans (abs_toRat_sub_abs_le t n q)
  · obtain ⟨t, n, rfl⟩ := isFinite_iff.mp hy
    by_cases hmn : n = m
    · -- the two differ in their signs only, and cannot be as near unless they are zero
      subst hmn
      have hst : s ≠ t := fun hst => hne (by rw [hst])
      rw [toRat_finite_of_ne hst] at hne heq
      rw [toRat_eq_zero_of_abs_sub_eq h heq, neg_zero] at hne
      exact absurd rfl hne
    · rw [hdist] at heq
      exact h.even n hmn
        (le_antisymm ((abs_toRat_sub_abs_le t n q).trans (le_of_eq heq)) (h.le n))

theorem Magnitude.quotient_nonneg (num den : Nat) : 0 ≤ quotient num den := by
  unfold quotient
  positivity

/-- **A quotient of units is rounded as the number that it is.** -/
theorem rounded_round {num den : Nat} (hden : 0 < den) {s : Bool} {q : ℚ}
    (hq : q = withSign s (Magnitude.quotient num den)) : Rounded q (round s num den) := by
  have habs : |q| = Magnitude.quotient num den := by
    rw [hq, abs_withSign, abs_of_nonneg (Magnitude.quotient_nonneg num den)]
  have hnone : Magnitude.round num den = none ↔ (Magnitude.overflowLimit : ℚ) ≤ |q| := by
    rw [habs]
    exact Magnitude.round_eq_none_iff_le_quotient hden
  rw [round_def]
  dsimp only
  cases hround : Magnitude.round num den with
  | none => exact .tooLarge (hnone.mp hround)
  | some m =>
      refine .nearest (lt_of_not_ge fun hle => ?_) (isNearest_finite ?_ ?_)
      · rw [hnone.mpr hle] at hround
        cases hround
      · rw [habs]
        exact Magnitude.isNearest_of_round hden hround
      · rw [habs, ← hq]

/-- Zero is rounded to zero of either sign. -/
theorem rounded_zero (s : Bool) : Rounded 0 (finite s .zero) := by
  refine .nearest ?_ ⟨rfl, fun y _ => ?_, fun y _ _ _ => ?_⟩
  · rw [abs_zero]
    exact_mod_cast (show 0 < Magnitude.overflowLimit by decide +kernel)
  · rw [toRat_zero, sub_zero, abs_zero]
    exact abs_nonneg _
  · exact (show Magnitude.zero.significand % 2 = 0 by decide)

/-! ## The operations -/

theorem toRat_finite (s : Bool) (m : Magnitude) :
    (finite s m).toRat = (signedUnits s m : ℚ) / (1 <<< fractionPlaces : ℕ) := by
  cases s <;> simp [toRat, withSign, signedUnits, Magnitude.toRat, neg_div]

/-- A magnitude of so many ones is a whole number. -/
theorem Magnitude.toRat_of_units {m : Magnitude} {k : Nat}
    (h : m.units = k <<< fractionPlaces) : m.toRat = k := by
  have hquot := quotient_shiftLeft k 1
  rwa [← h, quotient, Nat.cast_one, one_mul, div_one] at hquot

/-- **Whole numbers become the nearest double.** -/
theorem rounded_ofInt (z : ℤ) : Rounded z (ofInt z) := by
  refine rounded_round Nat.one_pos ?_
  rw [Magnitude.quotient_shiftLeft, Nat.cast_one, div_one, withSign_natAbs]

section

variable {x y : Binary64}

theorem rounded_add (hx : x.isFinite) (hy : y.isFinite) :
    Rounded (x.toRat + y.toRat) (x.add y) := by
  obtain ⟨s, m, rfl⟩ := isFinite_iff.mp hx
  obtain ⟨t, n, rfl⟩ := isFinite_iff.mp hy
  rw [toRat_finite, toRat_finite, ← add_div, ← Int.cast_add, add]
  generalize signedUnits s m + signedUnits t n = sum
  split
  · rename_i hsum
    rw [hsum, Int.cast_zero, zero_div]
    exact rounded_zero _
  · refine rounded_round Nat.one_pos ?_
    rw [Magnitude.quotient, Nat.cast_one, one_mul]
    conv_lhs => rw [← withSign_natAbs sum]
    cases decide (sum < 0) <;> simp [withSign, neg_div]

theorem rounded_sub (hx : x.isFinite) (hy : y.isFinite) :
    Rounded (x.toRat - y.toRat) (x.sub y) := by
  have hadd := rounded_add hx ((isFinite_negate y).trans hy)
  rw [toRat_negate, ← sub_eq_add_neg] at hadd
  exact hadd

theorem rounded_mul (hx : x.isFinite) (hy : y.isFinite) :
    Rounded (x.toRat * y.toRat) (x.mul y) := by
  obtain ⟨s, m, rfl⟩ := isFinite_iff.mp hx
  obtain ⟨t, n, rfl⟩ := isFinite_iff.mp hy
  refine rounded_round Magnitude.one_units_pos ?_
  rw [toRat, toRat, ← withSign_mul]
  congr 1
  rw [Magnitude.quotient, Magnitude.toRat, Magnitude.toRat, div_mul_div_comm, Nat.cast_mul]

theorem rounded_div (hx : x.isFinite) (hy : y.isFinite) (hzero : ¬ y.isZero) :
    Rounded (x.toRat / y.toRat) (x.div y) := by
  obtain ⟨s, m, rfl⟩ := isFinite_iff.mp hx
  obtain ⟨t, n, rfl⟩ := isFinite_iff.mp hy
  have hrank : n.rank ≠ 0 := fun h => hzero (by simp [isZero, h])
  have hunits : 0 < n.units :=
    Nat.pos_of_ne_zero fun h => hrank (Magnitude.rank_eq_zero_iff.mpr h)
  rw [div, if_neg hrank]
  refine rounded_round hunits ?_
  rw [toRat, toRat, ← withSign_div, Magnitude.quotient_shiftLeft, Magnitude.toRat,
    Magnitude.toRat, div_div_div_cancel_right₀ Magnitude.one_units_ne_zero]

end

end Binary64

/-- **An operation on doubles is the exact one, rounded.** -/
theorem Operator.rounded_onReals {op : Operator} {x y : Binary64} (hx : x.isFinite)
    (hy : y.isFinite) (hdiv : ¬ (op = .div ∧ y.isZero)) :
    Binary64.Rounded (op.exact x.toRat y.toRat) (op.onReals x y) := by
  cases op with
  | add => exact Binary64.rounded_add hx hy
  | sub => exact Binary64.rounded_sub hx hy
  | mul => exact Binary64.rounded_mul hx hy
  | div => exact Binary64.rounded_div hx hy fun h => hdiv ⟨rfl, h⟩

end Calculator
