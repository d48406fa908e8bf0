import Calculator.Decimal.Shortest
import Calculator.Proofs.Binary64.Whole

/-!
# Where a double has a point

The text of a double has a point in it exactly if the double is **no whole number**. One half
of this is about the search for the shortest decimal: a whole number is a multiple of ten
thousand, of a hundred, of one, or of whatever power of ten the search comes to, and so it
never gets down to fractions. The other half is about rounding: a decimal without a fraction
rounds to a whole number, so the text of anything else needs one.

What stands in front of the point is a run of digits in either case. For a whole number it
reads as the double itself; for any other it is smaller than 2^52.
-/

namespace Calculator.Decimal

open Binary64

theorem readsAs_iff {m : Magnitude} {ticks : Nat} :
    readsAs m ticks ↔ Magnitude.round ticks ticksPerUnit = some m := by
  rw [readsAs, beq_iff_eq]

/-! ## Ticks and units -/

theorem ticksPerOne_pos : 0 < ticksPerOne := by
  unfold ticksPerOne
  generalize fractionPlaces = places
  exact Nat.pow_pos (by decide)

/-- One in ticks is one in units, each unit in ticks. -/
theorem ticksPerOne_eq : ticksPerOne = 1 <<< fractionPlaces * ticksPerUnit := by
  unfold ticksPerOne ticksPerUnit
  generalize fractionPlaces = places
  rw [Nat.shiftLeft_eq, Nat.one_mul]
  exact Nat.mul_pow 2 5 places

theorem mul_ticksPerOne (n : Nat) : n * ticksPerOne = n <<< fractionPlaces * ticksPerUnit := by
  rw [ticksPerOne_eq, ← Nat.mul_assoc]
  simp only [Nat.shiftLeft_eq, Nat.one_mul]

/-- Read as a decimal or as a number, a whole number rounds to the same. -/
theorem round_mul_ticksPerOne (n : Nat) :
    Magnitude.round (n * ticksPerOne) ticksPerUnit
      = Magnitude.round (n <<< fractionPlaces) 1 := by
  have h := Magnitude.round_extend (n <<< fractionPlaces) 1 ticksPerUnit_pos
  rw [Nat.one_mul, ← mul_ticksPerOne] at h
  exact h

theorem ticksPerOne_dvd_exactTicks {m : Magnitude} (h : m.IsWhole) :
    ticksPerOne ∣ exactTicks m := by
  rw [ticksPerOne_eq, exactTicks]
  exact Nat.mul_dvd_mul_right h _

/-! ## The search -/

/-- A power of ten has one digit more than its exponent says. -/
theorem lt_length_toDigits {k n : Nat} (h : Nat.pow 10 k ≤ n) :
    k < (Nat.toDigits 10 n).length := by
  rcases Nat.eq_zero_or_pos k with rfl | hk
  · exact Nat.length_toDigits_pos
  · refine Nat.lt_of_not_le fun hle => ?_
    rw [Nat.length_toDigits_le_iff (by decide) hk] at hle
    exact Nat.not_le_of_lt hle h

/-- The search for zero ends at once. -/
theorem shortestUpTo_of_exactTicks_eq_zero {m : Magnitude} (h : exactTicks m = 0) (power : Nat) :
    shortestUpTo m power = 0 := by
  cases power with
  | zero => exact h
  | succ power =>
      have hreads := readsAs_exactTicks m
      have hpos : 0 < Nat.pow 10 (power + 1) := Nat.pow_pos (by decide)
      rw [h] at hreads
      unfold shortestUpTo
      simp only [h, Nat.zero_mod, Nat.sub_zero, hreads, Nat.mul_zero, hpos, true_or, and_self,
        if_true]

/-- **What the exact value is a multiple of**, the decimal found is a multiple of as well. -/
theorem dvd_shortestUpTo {m : Magnitude} {k power : Nat} (h : Nat.pow 10 k ∣ exactTicks m)
    (hk : k ≤ power) : Nat.pow 10 k ∣ shortestUpTo m power := by
  induction power with
  | zero => exact h
  | succ power ih =>
      have hstep : Nat.pow 10 k ∣ Nat.pow 10 (power + 1) := Nat.pow_dvd_pow 10 hk
      have hbelow : Nat.pow 10 k ∣ exactTicks m - exactTicks m % Nat.pow 10 (power + 1) :=
        Nat.dvd_sub h ((Nat.dvd_mod_iff hstep).mpr h)
      unfold shortestUpTo
      simp only
      split
      · exact hbelow
      · rename_i hnot
        split
        · exact Nat.dvd_add hbelow hstep
        · rcases Nat.eq_or_lt_of_le hk with rfl | hlt
          · -- here the exact value is itself a multiple, and it reads back
            refine absurd ⟨?_, .inl ?_⟩ hnot
            · rw [Nat.mod_eq_zero_of_dvd h]
              exact readsAs_exactTicks m
            · rw [Nat.mod_eq_zero_of_dvd h]
              exact Nat.pow_pos (by decide)
          · exact ih (Nat.le_of_lt_succ hlt)

/-- **Whole numbers are written without a fraction**, and no others are. -/
theorem ticksPerOne_dvd_shortest_iff {m : Magnitude} : ticksPerOne ∣ shortest m ↔ m.IsWhole := by
  constructor
  · intro h
    obtain ⟨n, hn⟩ := h
    have hreads := readsAs_iff.mp (readsAs_shortest m)
    rw [hn, Nat.mul_comm, round_mul_ticksPerOne] at hreads
    exact Magnitude.isWhole_of_round hreads
  · intro h
    have hdvd := ticksPerOne_dvd_exactTicks h
    by_cases hzero : exactTicks m = 0
    · rw [shortest, shortestUpTo_of_exactTicks_eq_zero hzero]
      exact Nat.dvd_zero _
    · -- one and more have more digits than there are places behind the point
      have hle : ticksPerOne ≤ exactTicks m := Nat.le_of_dvd (Nat.pos_of_ne_zero hzero) hdvd
      unfold ticksPerOne at hdvd hle ⊢
      generalize fractionPlaces = places at hdvd hle ⊢
      exact dvd_shortestUpTo hdvd (Nat.le_of_lt (lt_length_toDigits hle))

/-! ## The text -/

theorem isDigit_of_mem_fraction {c : Char} {ticks : Nat}
    (h : c ∈ (((Nat.toDigits 10 ticks).leftpad fractionPlaces '0').reverse.dropWhile
      (· == '0')).reverse) : c.isDigit := by
  have hmem : c ∈ (Nat.toDigits 10 ticks).leftpad fractionPlaces '0' :=
    List.mem_reverse.mp ((List.dropWhile_suffix _).subset (List.mem_reverse.mp h))
  rw [List.leftpad, List.mem_append] at hmem
  rcases hmem with hzero | hdigit
  · rw [(List.mem_replicate.mp hzero).2]
    rfl
  · exact Nat.isDigit_of_mem_toDigits (by decide) (by decide) hdigit

/-- **The text of a whole number** is a run of digits that rounds to it. -/
theorem ticksText_of_isWhole {m : Magnitude} (h : m.IsWhole) :
    ∃ n, shortest m = n * ticksPerOne ∧ ticksText (shortest m) = Nat.toDigits 10 n
      ∧ Magnitude.round (n <<< fractionPlaces) 1 = some m := by
  obtain ⟨n, hn⟩ := ticksPerOne_dvd_shortest_iff.mpr h
  rw [Nat.mul_comm] at hn
  refine ⟨n, hn, ?_, ?_⟩
  · rw [hn, ticksText, Nat.mul_div_cancel n ticksPerOne_pos, Nat.mul_mod_left, fractionText,
      if_pos rfl, List.append_nil]
  · rw [← round_mul_ticksPerOne, ← hn]
    exact readsAs_iff.mp (readsAs_shortest m)

/-- **The text of any other** has one point, with digits on both sides of it. -/
theorem ticksText_of_not_isWhole {m : Magnitude} (h : ¬ m.IsWhole) :
    ∃ n fraction, n < 0x10000000000000
      ∧ ticksText (shortest m) = Nat.toDigits 10 n ++ '.' :: fraction
      ∧ ∀ c ∈ fraction, c.isDigit := by
  have hrest : shortest m % ticksPerOne ≠ 0 := fun hzero =>
    h (ticksPerOne_dvd_shortest_iff.mp (Nat.dvd_of_mod_eq_zero hzero))
  have htext : ticksText (shortest m)
      = Nat.toDigits 10 (shortest m / ticksPerOne) ++ fractionText (shortest m % ticksPerOne) :=
    rfl
  rw [fractionText, if_neg hrest] at htext
  refine ⟨shortest m / ticksPerOne, _, ?_, htext, fun c => isDigit_of_mem_fraction⟩
  -- 2^52 and all above it round to 2^52 or more
  refine (Nat.div_lt_iff_lt_mul ticksPerOne_pos).mpr (Nat.lt_of_not_le fun hle => ?_)
  have hreads := readsAs_iff.mp (readsAs_shortest m)
  rw [mul_ticksPerOne, ← Magnitude.units_fractionLimit] at hle
  have hunits := Magnitude.units_le_of_round ticksPerUnit_pos hle hreads
  rw [Magnitude.units_fractionLimit] at hunits
  exact Nat.not_le_of_lt (Magnitude.units_lt_of_not_isWhole h) hunits

end Calculator.Decimal
