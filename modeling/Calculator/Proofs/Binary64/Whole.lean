import Calculator.Proofs.Binary64.Order

/-!
# Whole numbers among the doubles

Below 2^52 the doubles are close enough together to tell fractions apart, and from there on
they are **whole numbers** all of them. Rounding does not lead out of the whole numbers: what
was one is one afterwards, whether it had to be rounded or not.

How far apart two neighbours are is the binade's affair, so all of this is read off the units
of a rounded quotient, `units_of_round`.
-/

namespace Calculator.Binary64

/-- Nothing changes when the quotient is extended. -/
theorem nearestEven_extend (num den : Nat) {k : Nat} (hk : 0 < k) :
    nearestEven (num * k) (den * k) = nearestEven num den := by
  have hlt : ∀ a b : Nat, 2 * (a * k) < b * k ↔ 2 * a < b := fun a b => by
    rw [← Nat.mul_assoc, Nat.mul_lt_mul_right hk]
  have hgt : ∀ a b : Nat, b * k < 2 * (a * k) ↔ b < 2 * a := fun a b => by
    rw [← Nat.mul_assoc, Nat.mul_lt_mul_right hk]
  unfold nearestEven
  simp only [Nat.mul_mod_mul_right, Nat.mul_div_mul_right _ _ hk, hlt, hgt]

namespace Magnitude

/-- The magnitude is a whole number. -/
def IsWhole (m : Magnitude) : Prop := 1 <<< fractionPlaces ∣ m.units

instance (m : Magnitude) : Decidable m.IsWhole := inferInstanceAs (Decidable (_ ∣ _))

theorem shiftLeft_dvd (q : Nat) {j k : Nat} (h : j ≤ k) : 1 <<< j ∣ q <<< k := by
  rw [Nat.shiftLeft_eq, Nat.shiftLeft_eq, Nat.one_mul]
  exact Nat.dvd_mul_left_of_dvd (Nat.pow_dvd_pow 2 h) q

/-- A quotient rounds to the same when it is extended. -/
theorem round_extend (num den : Nat) {k : Nat} (hk : 0 < k) :
    round (num * k) (den * k) = round num den := by
  have hshift : ∀ e, (den * k) <<< e = den <<< e * k := fun e => by
    rw [Nat.shiftLeft_eq, Nat.shiftLeft_eq, Nat.mul_right_comm]
  unfold round
  simp only [Nat.mul_div_mul_right _ _ hk, hshift, nearestEven_extend _ _ hk]

/-- Ranks are counted on past the end of a binade as if it went on. -/
theorem units_of_rank {m : Magnitude} {e q : Nat} (hrank : m.rank = e * 0x10000000000000 + q)
    (hlast : q ≤ 0x20000000000000) (hfirst : e ≠ 0 → 0x10000000000000 ≤ q) :
    m.units = q <<< e := by
  rcases Nat.eq_or_lt_of_le hlast with rfl | hlt
  · -- the first magnitude of the next binade
    have hexp : m.exponent = e + 1 := by
      unfold exponent
      omega
    have hsig : m.significand = 0x10000000000000 := by
      unfold significand
      omega
    rw [units, hexp, hsig, Nat.shiftLeft_eq, Nat.shiftLeft_eq, Nat.pow_succ]
    omega
  · have hexp : m.exponent = e := by
      unfold exponent
      by_cases he : e = 0
      · omega
      · have := hfirst he
        omega
    have hsig : m.significand = q := by
      unfold significand
      omega
    rw [units, hexp, hsig]

/-- **The units of a rounded quotient**: the steps of the binade, as many as are nearest. -/
theorem units_of_round {num den : Nat} {m : Magnitude} (hden : 0 < den)
    (h : round num den = some m) :
    m.units = nearestEven num (den <<< binade num den) <<< binade num den := by
  rw [round_eq] at h
  split at h
  · cases h
    refine units_of_rank rfl ?_ fun hb => ?_
    · exact nearestEven_le_of_le_mul (Nat.shiftLeft_pos_iff.mpr hden) (le_of_binade num hden)
    · exact le_nearestEven_of_mul_le (Nat.shiftLeft_pos_iff.mpr hden) (le_of_binade_pos hden hb)
  · cases h

/-- **A whole number rounds to a whole number.** -/
theorem isWhole_of_round {n : Nat} {m : Magnitude}
    (h : round (n <<< fractionPlaces) 1 = some m) : m.IsWhole := by
  rw [IsWhole, units_of_round Nat.one_pos h]
  generalize binade (n <<< fractionPlaces) 1 = b
  rcases Nat.le_total fractionPlaces b with hle | hle
  · exact shiftLeft_dvd _ hle
  · -- the number is a whole number of steps, so it is not rounded at all
    obtain ⟨k, hk⟩ := shiftLeft_dvd n hle
    have hsteps : nearestEven (n <<< fractionPlaces) (1 <<< b) <<< b = n <<< fractionPlaces := by
      rw [hk, Nat.mul_comm, nearestEven_mul (Nat.shiftLeft_pos_iff.mpr Nat.one_pos)]
      simp only [Nat.shiftLeft_eq, Nat.one_mul]
    rw [hsteps]
    exact shiftLeft_dvd n (Nat.le_refl _)

/-- 2^52, from which on there are no fractions. -/
def fractionLimit : Magnitude := ⟨0x4330000000000000, by decide⟩

theorem units_fractionLimit : fractionLimit.units = 0x10000000000000 <<< fractionPlaces := by
  decide +kernel

/-- **What is no whole number is below 2^52.** -/
theorem units_lt_of_not_isWhole {m : Magnitude} (h : ¬ m.IsWhole) :
    m.units < 0x10000000000000 <<< fractionPlaces := by
  have hexp : m.exponent < fractionPlaces :=
    Nat.lt_of_not_le fun hle => h (shiftLeft_dvd _ hle)
  have hlt := units_mul_lt hexp Nat.one_pos
  rw [Nat.mul_one, Nat.shiftLeft_eq, Nat.one_mul] at hlt
  rw [Nat.shiftLeft_eq]
  exact hlt

end Magnitude

end Calculator.Binary64
