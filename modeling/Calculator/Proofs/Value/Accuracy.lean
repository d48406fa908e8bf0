import Calculator.Proofs.Binary64.Accuracy
import Calculator.Proofs.Value.Operation

/-!
# How accurate an operation on integers is

Where two integers have no 64-bit result, three roundings lie between them and the double that
is given: one of each operand, and one of the result. **The result is still accurate to one part
in 2^51.** A product or a quotient takes over the errors of its operands, which is harmless. A
sum would lose by cancellation, but a sum that cancels is no larger than its operands are: it
has a 64-bit result, and no rounding takes place at all.

Nor can the result be too large, as no integer is larger than 2^63, and no integer other than
zero is smaller than one.
-/

namespace Calculator

open Binary64

/-! ## Integers as doubles -/

theorem abs_toInt_le (n : Int64) : |n.toInt| ≤ 2 ^ 63 := by
  rw [← Int.natCast_natAbs]
  exact_mod_cast Value.natAbs_toInt_le n

theorem moderate_toInt (n : Int64) : Moderate 63 n.toInt := .of_int (abs_toInt_le n)

/-- An integer that becomes a double is rounded by one part in 2^53 at the most. -/
theorem Value.within_asReal (n : Int64) :
    Within (1 / 2 ^ 53) (Value.integer n).asReal.toRat n.toInt :=
  ((rounded_ofInt n.toInt).within ((moderate_toInt n).mono (by norm_num))).2

/-! ## Exact results -/

/-- **A sum that is out of range does not cancel.** -/
theorem abs_add_of_not_inRange {a b : Int} (ha : InRange a) (hb : InRange b)
    (h : ¬ InRange (a + b)) : |a + b| = |a| + |b| := by
  unfold InRange at ha hb h
  rcases abs_cases a with ⟨hA, _⟩ | ⟨hA, _⟩ <;> rcases abs_cases b with ⟨hB, _⟩ | ⟨hB, _⟩ <;>
    rcases abs_cases (a + b) with ⟨hC, _⟩ | ⟨hC, _⟩ <;> omega

theorem abs_sub_of_not_inRange {a b : Int} (ha : InRange a) (hb : InRange b)
    (h : ¬ InRange (a - b)) : |a - b| = |a| + |b| := by
  unfold InRange at ha hb h
  rcases abs_cases a with ⟨hA, _⟩ | ⟨hA, _⟩ <;> rcases abs_cases b with ⟨hB, _⟩ | ⟨hB, _⟩ <;>
    rcases abs_cases (a - b) with ⟨hC, _⟩ | ⟨hC, _⟩ <;> omega

namespace Operator

/-- What is exact on integers is neither very large nor very small. -/
theorem moderate_exact (op : Operator) (a b : Int64) :
    Moderate 126 (op.exact a.toInt b.toInt) := by
  have ha := abs_toInt_le a
  have hb := abs_toInt_le b
  cases op with
  | add =>
      have hsum : |a.toInt + b.toInt| ≤ 2 ^ 126 :=
        (abs_add_le _ _).trans ((add_le_add ha hb).trans (by norm_num))
      have hmoderate := Moderate.of_int hsum
      rwa [Int.cast_add] at hmoderate
  | sub =>
      have hdiff : |a.toInt - b.toInt| ≤ 2 ^ 126 :=
        (abs_sub _ _).trans ((add_le_add ha hb).trans (by norm_num))
      have hmoderate := Moderate.of_int hdiff
      rwa [Int.cast_sub] at hmoderate
  | mul => exact (moderate_toInt a).mul (moderate_toInt b)
  | div => exact (moderate_toInt a).div (moderate_toInt b)

/-- **Rounding the operands** changes the result by five parts in 2^54 at the most, unless the
result is an integer. -/
theorem within_exactOnReals {op : Operator} {a b : Int64} (hdiv : ¬ (op = .div ∧ b = 0))
    (h : ∀ z, ¬ op.GivesInteger (.integer a) (.integer b) z) :
    Within (5 / 2 ^ 54) (op.exactOnReals (.integer a) (.integer b))
      (op.exact a.toInt b.toInt) := by
  have ha := Value.within_asReal a
  have hb := Value.within_asReal b
  have hout : ∀ z : Int, op ≠ .div → op.exact a.toInt b.toInt = z → ¬ InRange z :=
    fun z hne hz hr => h z ⟨hne, ⟨a, b, rfl, rfl, hz⟩, hr⟩
  cases op with
  | add =>
      have hno := abs_add_of_not_inRange (inRange_toInt a) (inRange_toInt b)
        (hout _ (by decide) (Int.cast_add _ _).symm)
      exact (ha.add hb (by exact_mod_cast hno)).mono (by norm_num)
  | sub =>
      have hno := abs_sub_of_not_inRange (inRange_toInt a) (inRange_toInt b)
        (hout _ (by decide) (Int.cast_sub _ _).symm)
      exact (ha.sub hb (by exact_mod_cast hno)).mono (by norm_num)
  | mul => exact (ha.mul (by norm_num) hb).mono (by norm_num)
  | div =>
      have hb0 : (b.toInt : ℚ) ≠ 0 := fun h0 =>
        hdiv ⟨rfl, Int64.toInt_inj.mp (by exact_mod_cast h0)⟩
      exact (ha.div (by norm_num) hb (by norm_num) (by norm_num) hb0).mono (by norm_num)

/-- **And rounding the result** makes it one part in 2^51. -/
theorem within_onReals {op : Operator} {a b : Int64} (hdiv : ¬ (op = .div ∧ b = 0))
    (h : ∀ z, ¬ op.GivesInteger (.integer a) (.integer b) z) :
    (op.onReals (Value.integer a).asReal (Value.integer b).asReal).isFinite
      ∧ Within (1 / 2 ^ 51) (op.onReals (Value.integer a).asReal (Value.integer b).asReal).toRat
        (op.exact a.toInt b.toInt) := by
  have hclose := within_exactOnReals hdiv h
  have hmoderate : Moderate 127 (op.exactOnReals (.integer a) (.integer b)) :=
    .of_within hclose (by norm_num) (op.moderate_exact a b)
  have hzero : ¬ (op = .div ∧ (Value.integer b).asReal.isZero) := by
    rw [Value.isZero_asReal]
    simpa [Value.isZero] using hdiv
  have hfinite : ∀ n : Int64, (Value.integer n).asReal.isFinite := fun n =>
    Value.IsFinite.asReal (v := .integer n) trivial
  obtain ⟨hfin, hround⟩ :=
    (rounded_onReals (hfinite a) (hfinite b) hzero).within (hmoderate.mono (by norm_num))
  exact ⟨hfin, (hround.trans (by norm_num) hclose).mono (by norm_num)⟩

/-- On two integers the integer is given that is exact, or else a double near to that. -/
theorem apply_integers {op : Operator} {a b : Int64} (hdiv : ¬ (op = .div ∧ b = 0)) :
    (op ≠ .div ∧ ∃ n : Int64, (n.toInt : ℚ) = op.exact a.toInt b.toInt
        ∧ op.apply (.integer a) (.integer b) = .ok (.integer n))
      ∨ (op ≠ .div → ¬ Fits (op.exact a.toInt b.toInt))
        ∧ ∃ x : Binary64, op.apply (.integer a) (.integer b) = .ok (.real x) ∧ x.isFinite
          ∧ |x.toRat - op.exact a.toInt b.toInt| ≤ 1 / 2 ^ 51 * |op.exact a.toInt b.toInt| := by
  by_cases hint : ∃ z, op.GivesInteger (.integer a) (.integer b) z
  · obtain ⟨z, hz⟩ := hint
    obtain ⟨a', b', ha, hb, hexact⟩ := hz.operands
    cases ha
    cases hb
    refine .inl ⟨hz.ne_div, _, ?_, apply_of_givesInteger hz⟩
    rw [toInt_ofInt hz.inRange, hexact]
  · have hno := not_exists.mp hint
    refine .inr ⟨fun hne hfits => ?_, ?_⟩
    · obtain ⟨z, hz, _⟩ := integral?_integer hne a b
      rw [hz, fits_intCast_iff] at hfits
      exact hno z ⟨hne, ⟨a, b, rfl, rfl, hz⟩, hfits⟩
    · obtain ⟨hfinite, hnear⟩ := within_onReals hdiv hno
      refine ⟨_, ?_, hfinite, hnear⟩
      rw [apply_of_not_givesInteger (by simpa [Value.isZero] using hdiv) hno, Value.ofReal,
        if_pos hfinite]

/-- **Integers have a result whatever the operation**, but for a division by zero. It is the
integer that is exact, and without one a double that is accurate to one part in 2^51. -/
theorem applyAt_integers (op : Operator) (a b : Int64) (position : Nat) :
    ((∃ v, op.applyAt position (.integer a) (.integer b) = .ok v) ↔ (op = .div → b ≠ 0))
      ∧ (op = .div → b = 0 →
        op.applyAt position (.integer a) (.integer b) = .error ⟨.divisionByZero, position⟩)
      ∧ (op ≠ .div → Fits (op.exact a.toInt b.toInt) →
        ∃ n : Int64, (n.toInt : ℚ) = op.exact a.toInt b.toInt
          ∧ op.applyAt position (.integer a) (.integer b) = .ok (.integer n))
      ∧ ((op = .div → b ≠ 0) → (op ≠ .div → ¬ Fits (op.exact a.toInt b.toInt)) →
        ∃ x : Binary64, op.applyAt position (.integer a) (.integer b) = .ok (.real x)
          ∧ x.isFinite
          ∧ |x.toRat - op.exact a.toInt b.toInt| ≤ 1 / 2 ^ 51 * |op.exact a.toInt b.toInt|) := by
  simp only [applyAt_eq_ok_iff, applyAt_eq_error_iff, Error.mk.injEq, and_true, exists_eq_right']
  by_cases hdiv : op = .div ∧ b = 0
  · obtain ⟨rfl, rfl⟩ := hdiv
    have hzero := apply_div_of_isZero (l := .integer a) (r := .integer 0) rfl
    refine ⟨⟨fun ⟨v, hv⟩ => ?_, fun hne => absurd rfl (hne rfl)⟩, fun _ _ => hzero,
      fun hne => absurd rfl hne, fun hne => absurd rfl (hne rfl)⟩
    rw [hzero] at hv
    cases hv
  · have hne : op = .div → b ≠ 0 := fun hop hb => hdiv ⟨hop, hb⟩
    rcases apply_integers hdiv with ⟨hop, n, hn, hok⟩ | ⟨hfits, x, hok, hx⟩
    · have hrange : Fits (op.exact a.toInt b.toInt) := hn ▸ fits_toInt n
      exact ⟨⟨fun _ => hne, fun _ => ⟨_, hok⟩⟩, fun hop' => absurd hop' hop,
        fun _ _ => ⟨n, hn, hok⟩, fun _ hno => absurd hrange (hno hop)⟩
    · exact ⟨⟨fun _ => hne, fun _ => ⟨_, hok⟩⟩, fun hop hb => absurd hb (hne hop),
        fun hop hrange => absurd hrange (hfits hop), fun _ _ => ⟨x, hok, hx⟩⟩

end Operator

end Calculator
