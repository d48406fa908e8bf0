import Mathlib.Algebra.Group.Nat.Defs
import Calculator.Binary64.Arithmetic

/-!
# Rounding keeps the order

Magnitudes are listed by size, so comparing two of them is comparing their ranks, and
rounding respects that: **a quotient that is at most a magnitude rounds to at most this
magnitude, and one that is at least a magnitude to at least this one**. Nothing more has to
be known about rounding in order to say that a result is finite, or how small it can be.

The binades are what the proof goes by. In the binade of the magnitude the significands
are compared, and in another one its first or its last rank is far enough away.
-/

namespace Calculator.Binary64

/-! ## Whole numbers -/

/-- What is at most `q` does not round up past it. -/
theorem nearestEven_le_of_le_mul {num den q : Nat} (hden : 0 < den) (h : num ≤ q * den) :
    nearestEven num den ≤ q := by
  have hle : num / den ≤ q := Nat.div_le_of_le_mul (Nat.mul_comm q den ▸ h)
  rcases Nat.eq_or_lt_of_le hle with heq | hlt
  · -- then the quotient is `q` with nothing over
    have hmul : q * den ≤ num := heq ▸ Nat.div_mul_le_self num den
    exact Nat.le_of_eq (by rw [Nat.le_antisymm h hmul, nearestEven_mul hden])
  · exact Nat.le_trans (nearestEven_le num den) hlt

/-- What is at least `q` does not round down past it. -/
theorem le_nearestEven_of_mul_le {num den q : Nat} (hden : 0 < den) (h : q * den ≤ num) :
    q ≤ nearestEven num den :=
  Nat.le_trans ((Nat.le_div_iff_mul_le hden).mpr h) (le_nearestEven num den)

theorem shiftLeft_mono {a b : Nat} (h : a ≤ b) (k : Nat) : a <<< k ≤ b <<< k := by
  rw [Nat.shiftLeft_eq, Nat.shiftLeft_eq]
  exact Nat.mul_le_mul_right _ h

theorem shiftLeft_mono_right (a : Nat) {j k : Nat} (h : j ≤ k) : a <<< j ≤ a <<< k := by
  rw [Nat.shiftLeft_eq, Nat.shiftLeft_eq]
  exact Nat.mul_le_mul_left a (Nat.pow_le_pow_right (by decide) h)

theorem pow_add_mul (e k a : Nat) : 2 ^ (e + k) * a = 2 ^ k * (a <<< e) := by
  rw [Nat.shiftLeft_eq, Nat.pow_add, Nat.mul_comm (2 ^ e), Nat.mul_assoc, Nat.mul_comm (2 ^ e)]

namespace Magnitude

/-! ## Magnitudes -/

/-- The binade of a quotient of units. -/
def binade (num den : Nat) : Nat := (num / den).log2 - 52

/-- The rank that a quotient of units rounds to, be there such a magnitude or not. -/
def roundedRank (num den : Nat) : Nat :=
  binade num den * 0x10000000000000 + nearestEven num (den <<< binade num den)

theorem round_eq (num den : Nat) :
    round num den =
      if h : roundedRank num den < 0x7FF0000000000000 then some ⟨roundedRank num den, h⟩
      else none := rfl

theorem binade_units_mul (m : Magnitude) {den : Nat} (hden : 0 < den) :
    binade (m.units * den) den = m.exponent := by
  rw [binade, Nat.mul_div_cancel _ hden, log2_units]

theorem binade_mono {num num' den : Nat} (h : num ≤ num') : binade num den ≤ binade num' den := by
  have hdiv : num / den ≤ num' / den := Nat.div_le_div_right h
  refine Nat.sub_le_sub_right ?_ 52
  by_cases hzero : num / den = 0
  · rw [hzero]
    exact Nat.zero_le _
  · have hne : num' / den ≠ 0 := fun h => hzero (Nat.le_zero.mp (h ▸ hdiv))
    exact (Nat.le_log2 hne).mpr (Nat.le_trans (Nat.log2_self_le hzero) hdiv)

/-- In its own binade a magnitude is counted by its significand. -/
theorem units_mul_eq (m : Magnitude) (den : Nat) :
    m.units * den = m.significand * (den <<< m.exponent) := by
  rw [units, Nat.shiftLeft_eq, Nat.shiftLeft_eq, Nat.mul_assoc, Nat.mul_comm den]

/-- A binade starts past all that lies in an earlier one. -/
theorem units_mul_lt {n : Magnitude} {b den : Nat} (h : n.exponent < b) (hden : 0 < den) :
    n.units * den < 0x10000000000000 * (den <<< b) := by
  have hsig : n.significand < 0x20000000000000 := n.significand_lt
  have hdouble : 2 * (den <<< n.exponent) ≤ den <<< b := by
    rw [← Nat.shiftLeft_succ]
    exact shiftLeft_mono_right den h
  calc n.units * den
      = n.significand * (den <<< n.exponent) := units_mul_eq n den
    _ < 0x20000000000000 * (den <<< n.exponent) :=
        Nat.mul_lt_mul_of_pos_right hsig (Nat.shiftLeft_pos_iff.mpr hden)
    _ = 0x10000000000000 * (2 * (den <<< n.exponent)) := by omega
    _ ≤ 0x10000000000000 * (den <<< b) := Nat.mul_le_mul_left _ hdouble

/-- A binade ends in front of 2^53 steps. -/
theorem le_of_binade (num : Nat) {den : Nat} (hden : 0 < den) :
    num ≤ 0x20000000000000 * (den <<< binade num den) := by
  have hlog : num / den < 2 ^ (binade num den + 53) := by
    refine Nat.lt_of_lt_of_le Nat.lt_log2_self (Nat.pow_le_pow_right (by decide) ?_)
    unfold binade
    omega
  have hlt : num < 2 ^ (binade num den + 53) * den := (Nat.div_lt_iff_lt_mul hden).mp hlog
  rw [pow_add_mul] at hlt
  exact Nat.le_of_lt hlt

/-- And past the first one it starts with 2^52. -/
theorem le_of_binade_pos {num den : Nat} (hden : 0 < den) (h : binade num den ≠ 0) :
    0x10000000000000 * (den <<< binade num den) ≤ num := by
  have hne : num / den ≠ 0 := by
    intro hzero
    simp [binade, hzero] at h
  have hlog : 2 ^ (binade num den + 52) ≤ num / den := by
    refine Nat.le_trans (Nat.pow_le_pow_right (by decide) ?_) (Nat.log2_self_le hne)
    unfold binade at h ⊢
    omega
  have hle := (Nat.le_div_iff_mul_le hden).mp hlog
  rw [pow_add_mul] at hle
  exact hle

/-- **What is at most a magnitude rounds to at most its rank.** -/
theorem roundedRank_le {num den : Nat} {m : Magnitude} (hden : 0 < den)
    (h : num ≤ m.units * den) : roundedRank num den ≤ m.rank := by
  have hbinade : binade num den ≤ m.exponent := m.binade_units_mul hden ▸ binade_mono h
  rw [roundedRank, m.rank_eq]
  rcases Nat.eq_or_lt_of_le hbinade with heq | hlt
  · -- in the binade of the magnitude
    rw [heq]
    refine Nat.add_le_add_left (nearestEven_le_of_le_mul (Nat.shiftLeft_pos_iff.mpr hden) ?_) _
    rw [← units_mul_eq]
    exact h
  · -- in a lower one, which ends where the next one starts
    have hlast := nearestEven_le_of_le_mul (Nat.shiftLeft_pos_iff.mpr hden) (le_of_binade num hden)
    have hfirst := le_significand (m := m) (by omega)
    omega

/-- **What is at least a magnitude rounds to at least its rank.** -/
theorem le_roundedRank {num den : Nat} {m : Magnitude} (hden : 0 < den)
    (h : m.units * den ≤ num) : m.rank ≤ roundedRank num den := by
  have hbinade : m.exponent ≤ binade num den := m.binade_units_mul hden ▸ binade_mono h
  rw [roundedRank, m.rank_eq]
  rcases Nat.eq_or_lt_of_le hbinade with heq | hlt
  · rw [← heq]
    refine Nat.add_le_add_left (le_nearestEven_of_mul_le (Nat.shiftLeft_pos_iff.mpr hden) ?_) _
    rw [← units_mul_eq]
    exact h
  · have hfirst := le_nearestEven_of_mul_le (Nat.shiftLeft_pos_iff.mpr hden)
      (le_of_binade_pos hden (show binade num den ≠ 0 by omega))
    have hlast := m.significand_lt
    omega

/-- **A larger rank is a larger magnitude.** -/
theorem units_le_units_iff {m n : Magnitude} : m.units ≤ n.units ↔ m.rank ≤ n.rank := by
  have hrank : ∀ {m n : Magnitude}, m.units ≤ n.units → m.rank ≤ n.rank := by
    intro m n h
    have hexact : m.rank ≤ roundedRank (m.units * 1) 1 :=
      le_roundedRank Nat.one_pos (Nat.le_refl _)
    have hround : roundedRank (m.units * 1) 1 ≤ n.rank :=
      roundedRank_le Nat.one_pos (Nat.mul_le_mul_right 1 h)
    exact Nat.le_trans hexact hround
  refine ⟨hrank, fun h => ?_⟩
  rcases Nat.le_total m.units n.units with hle | hle
  · exact hle
  · -- then the two are one
    exact Nat.le_of_eq (congrArg units (Magnitude.ext (Nat.le_antisymm h (hrank hle))))

/-- **A quotient below a magnitude rounds to a magnitude** not above it. -/
theorem exists_round_le {num den : Nat} {m : Magnitude} (hden : 0 < den)
    (h : num ≤ m.units * den) : ∃ r, round num den = some r ∧ r.units ≤ m.units := by
  have hle := roundedRank_le hden h
  have hlt := Nat.lt_of_le_of_lt hle m.rank_lt
  exact ⟨⟨roundedRank num den, hlt⟩, by rw [round_eq, dif_pos hlt], units_le_units_iff.mpr hle⟩

/-- A quotient above a magnitude rounds to nothing below it. -/
theorem units_le_of_round {num den : Nat} {m r : Magnitude} (hden : 0 < den)
    (h : m.units * den ≤ num) (hr : round num den = some r) : m.units ≤ r.units := by
  rw [round_eq] at hr
  split at hr
  · cases hr
    exact units_le_units_iff.mpr (le_roundedRank hden h)
  · cases hr

/-- A whole number rounds to no less than a magnitude that is a smaller whole number. -/
theorem units_le_of_round_whole {k n : Nat} {m r : Magnitude}
    (hm : m.units = k <<< fractionPlaces) (hk : k ≤ n)
    (hr : round (n <<< fractionPlaces) 1 = some r) : m.units ≤ r.units := by
  refine units_le_of_round Nat.one_pos ?_ hr
  rw [hm, Nat.mul_one]
  exact shiftLeft_mono hk _

/-- One. -/
def one : Magnitude := ⟨0x3FF0000000000000, by decide⟩

/-- 2^63, the first number that is too large for a 64-bit integer. -/
def integerLimit : Magnitude := ⟨0x43E0000000000000, by decide⟩

theorem units_one : one.units = 1 <<< fractionPlaces := by decide +kernel

theorem one_units_pos : 0 < 1 <<< fractionPlaces := Nat.shiftLeft_pos_iff.mpr Nat.one_pos

theorem units_integerLimit : integerLimit.units = 0x8000000000000000 <<< fractionPlaces := by
  decide +kernel

/-- The smallest magnitude is the only one without units. -/
theorem rank_eq_zero_iff {m : Magnitude} : m.rank = 0 ↔ m.units = 0 := by
  have h := units_le_units_iff (m := m) (n := zero)
  have hzero : zero.units = 0 := by decide
  rw [hzero] at h
  change m.units ≤ 0 ↔ m.rank ≤ 0 at h
  omega

/-- What is at least one has units. -/
theorem units_pos_of_one_le {m : Magnitude} (h : one.units ≤ m.units) : 0 < m.units := by
  rw [units_one] at h
  exact Nat.lt_of_lt_of_le one_units_pos h

theorem rank_ne_zero_of_one_le {m : Magnitude} (h : one.units ≤ m.units) : m.rank ≠ 0 :=
  fun hrank => Nat.ne_of_gt (units_pos_of_one_le h) (rank_eq_zero_iff.mp hrank)

end Magnitude

/-! ## Doubles -/

/-- Stated of the function itself: with arguments, checking it would compute the rounding. -/
theorem round_def : round = fun negative num den =>
    match Magnitude.round num den with
    | some m => finite negative m
    | none => infinity negative := by
  delta round
  rfl

theorem round_of_some {negative : Bool} {num den : Nat} {m : Magnitude}
    (h : Magnitude.round num den = some m) : round negative num den = finite negative m := by
  rw [round_def]
  simp only [h]

theorem isFinite_iff {x : Binary64} : x.isFinite ↔ ∃ s m, x = finite s m := by
  cases x <;> simp [isFinite]

theorem isFinite_negate (x : Binary64) : x.negate.isFinite = x.isFinite := by
  cases x <;> rfl

/-- Only not-a-number differs from itself. -/
theorem equals_self_of_isFinite {x : Binary64} (h : x.isFinite) : x.equals x := by
  cases x with
  | finite s m => simp [equals]
  | _ => cases h

/-- The number is finite and at least one, or at most minus one. -/
def AtLeastOne (x : Binary64) : Prop := ∃ s m, x = finite s m ∧ Magnitude.one.units ≤ m.units

/-- **The 64-bit integers are finite**, and those that are not zero do not come near it. -/
theorem exists_ofInt_eq {z : Int} (h : z.natAbs ≤ 0x8000000000000000) :
    ∃ m, ofInt z = finite (decide (z < 0)) m ∧ (z ≠ 0 → Magnitude.one.units ≤ m.units) := by
  have hle : z.natAbs <<< fractionPlaces ≤ Magnitude.integerLimit.units * 1 := by
    rw [Magnitude.units_integerLimit, Nat.mul_one]
    exact shiftLeft_mono h _
  obtain ⟨m, hround, _⟩ := Magnitude.exists_round_le Nat.one_pos hle
  refine ⟨m, by rw [ofInt, round_of_some hround], fun hne => ?_⟩
  exact Magnitude.units_le_of_round_whole Magnitude.units_one (by omega) hround

/-- **Dividing by one or more makes nothing larger**, so that the quotient stays finite. -/
theorem isFinite_div {x y : Binary64} (hx : x.isFinite) (hy : y.AtLeastOne) :
    (x.div y).isFinite := by
  obtain ⟨s, m, rfl⟩ := isFinite_iff.mp hx
  obtain ⟨t, n, rfl, hn⟩ := hy
  have hunits : 0 < n.units := Magnitude.units_pos_of_one_le hn
  have hrank : n.rank ≠ 0 := Magnitude.rank_ne_zero_of_one_le hn
  have hle : m.units <<< fractionPlaces ≤ m.units * n.units := by
    rw [Magnitude.units_one, Nat.shiftLeft_eq, Nat.one_mul] at hn
    rw [Nat.shiftLeft_eq]
    exact Nat.mul_le_mul_left _ hn
  obtain ⟨q, hround, _⟩ := Magnitude.exists_round_le hunits hle
  rw [div, if_neg hrank, round_of_some hround]
  rfl

end Calculator.Binary64
