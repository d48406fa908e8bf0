import Calculator.Proofs.Binary64.Operations
import Calculator.Proofs.Expression.Divisor

/-!
# What an operation gives

On values that are numbers, **exact arithmetic decides what an operation gives**, and in which of
two ways. Where both operands are integers and so is the exact result, with no more than 64
bits, this is the result. Everything else is done on the operands as doubles: what is exact
there is rounded to the nearest double, and from 2^1024 - 2^970 on it is too large. Only
dividing by zero is an error before there is anything to be exact about.
-/

namespace Calculator

open Binary64

/-- The operation divides, by the integer zero or by a real zero of either sign. -/
def Operator.DividesByZero (op : Operator) (r : Value) : Prop :=
  op = .div ∧ (r = .integer 0 ∨ ∃ s, r = .real (.finite s .zero))

/-- Both operands are integers, and the exact result is the 64-bit integer `z`. -/
structure Operator.GivesInteger (op : Operator) (l r : Value) (z : ℤ) : Prop where
  ne_div : op ≠ .div
  operands : ∃ a b : Int64, l = .integer a ∧ r = .integer b ∧ op.exact a.toInt b.toInt = z
  inRange : InRange z

/-- The exact result on the operands as doubles. -/
def Operator.exactOnReals (op : Operator) (l r : Value) : ℚ :=
  op.exact l.asReal.toRat r.asReal.toRat

namespace Value

/-- The integer zero and the two real ones. -/
theorem isZero_iff {v : Value} : v.isZero ↔ v = .integer 0 ∨ ∃ s, v = .real (.finite s .zero) := by
  cases v with
  | integer n => simp [isZero]
  | real x =>
      cases x with
      | finite s m => simp [isZero, Binary64.isZero, Magnitude.zero, Magnitude.ext_iff]
      | _ => simp [isZero, Binary64.isZero]

/-- An integer is zero as a double only if it is zero. -/
theorem isZero_asReal {v : Value} : v.asReal.isZero ↔ v.isZero := by
  cases v with
  | integer n =>
      obtain ⟨m, hm, hone⟩ := exists_ofInt_eq (natAbs_toInt_le n)
      by_cases hn : n = 0
      · subst hn
        decide +kernel
      · -- as a double it is one or more
        have hne : n.toInt ≠ 0 := fun h => hn (Int64.toInt_inj.mp h)
        have hrank : m.rank ≠ 0 := Magnitude.rank_ne_zero_of_one_le (hone hne)
        rw [asReal, hm]
        simp [isZero, Binary64.isZero, hrank, hn]
  | real x => rfl

/-- **A rounded number is a value**, or it is too large. -/
theorem ofReal_of_rounded {x : Binary64} {q : ℚ} (h : Rounded q x) :
    (|q| < Magnitude.overflowLimit ∧ x.IsNearest q ∧ ofReal x = .ok (.real x))
      ∨ (Magnitude.overflowLimit : ℚ) ≤ |q| ∧ ofReal x = .error .overflow := by
  cases h with
  | nearest hlt hnear => exact .inl ⟨hlt, hnear, if_pos hnear.isFinite⟩
  | tooLarge hle => exact .inr ⟨hle, rfl⟩

end Value

namespace Operator

variable {op : Operator} {l r : Value}

/-- The integer operation gives something just where the exact result is in range. -/
theorem integral?_eq_some_iff {v : Value} :
    op.integral? l r = some v ↔ ∃ z, op.GivesInteger l r z ∧ v = .integer (Int64.ofInt z) := by
  constructor
  · intro h
    obtain ⟨hdiv, a, b, rfl, rfl⟩ := integers_of_integral? h
    obtain ⟨z, hz, hint⟩ := integral?_integer hdiv a b
    rw [hint] at h
    by_cases hr : InRange z
    · rw [Value.ofInt?_of_inRange hr] at h
      exact ⟨z, ⟨hdiv, ⟨a, b, rfl, rfl, hz⟩, hr⟩, (Option.some.inj h).symm⟩
    · rw [Value.ofInt?_of_not_inRange hr] at h
      cases h
  · rintro ⟨z, ⟨hdiv, ⟨a, b, rfl, rfl, hz⟩, hr⟩, rfl⟩
    obtain ⟨z', hz', hint⟩ := integral?_integer hdiv a b
    have heq : z' = z := by exact_mod_cast hz'.symm.trans hz
    rw [hint, heq, Value.ofInt?_of_inRange hr]

theorem apply_of_givesInteger {z : ℤ} (h : op.GivesInteger l r z) :
    op.apply l r = .ok (.integer (Int64.ofInt z)) := by
  have hint := integral?_eq_some_iff.mpr ⟨z, h, rfl⟩
  rw [apply, if_neg fun hdiv => h.ne_div hdiv.1, hint]

/-- Without an integer for a result, the operation is done on the doubles. -/
theorem apply_of_not_givesInteger (hdiv : ¬ (op = .div ∧ r.isZero))
    (h : ∀ z, ¬ op.GivesInteger l r z) :
    op.apply l r = Value.ofReal (op.onReals l.asReal r.asReal) := by
  have hint : op.integral? l r = none := by
    rw [Option.eq_none_iff_forall_ne_some]
    intro v hv
    obtain ⟨z, hz, _⟩ := integral?_eq_some_iff.mp hv
    exact h z hz
  rw [apply, if_neg hdiv, hint]

/-- **On doubles the exact result is rounded**, unless it is too large. -/
theorem apply_on_reals (hl : l.IsFinite) (hr : r.IsFinite) (hdiv : ¬ (op = .div ∧ r.isZero))
    (h : ∀ z, ¬ op.GivesInteger l r z) :
    (|op.exactOnReals l r| < Magnitude.overflowLimit
        ∧ ∃ x, x.IsNearest (op.exactOnReals l r) ∧ op.apply l r = .ok (.real x))
      ∨ (Magnitude.overflowLimit : ℚ) ≤ |op.exactOnReals l r|
        ∧ op.apply l r = .error .overflow := by
  rw [apply_of_not_givesInteger hdiv h]
  rw [← Value.isZero_asReal] at hdiv
  rcases Value.ofReal_of_rounded (rounded_onReals hl.asReal hr.asReal hdiv) with
    ⟨hlt, hnear, hok⟩ | hover
  · exact .inl ⟨hlt, _, hnear, hok⟩
  · exact .inr hover

/-! ## Errors -/

theorem apply_eq_divisionByZero_iff :
    op.apply l r = .error .divisionByZero ↔ op = .div ∧ r.isZero := by
  refine ⟨apply_eq_divisionByZero, ?_⟩
  rintro ⟨rfl, hzero⟩
  exact apply_div_of_isZero hzero

/-- **What an operation gives is what exact arithmetic says**, on all integers and finite reals
and wherever the error would point. -/
theorem applyAt_exact (op : Operator) {l r : Value} (hl : l.IsFinite) (hr : r.IsFinite)
    (position : Nat) :
    (op.applyAt position l r = .error ⟨.divisionByZero, position⟩ ↔ op.DividesByZero r)
      ∧ (∀ z, op.GivesInteger l r z →
        ∃ n : Int64, n.toInt = z ∧ op.applyAt position l r = .ok (.integer n))
      ∧ (¬ op.DividesByZero r → (∀ z, ¬ op.GivesInteger l r z) →
        (op.applyAt position l r = .error ⟨.overflow, position⟩ ↔
            (Magnitude.overflowLimit : ℚ) ≤ |op.exactOnReals l r|)
          ∧ (|op.exactOnReals l r| < Magnitude.overflowLimit →
            ∃ x, op.applyAt position l r = .ok (.real x)
              ∧ x.IsNearest (op.exactOnReals l r))) := by
  simp only [applyAt_eq_ok_iff, applyAt_eq_error_iff, Error.mk.injEq, and_true, exists_eq_right',
    DividesByZero, ← Value.isZero_iff]
  refine ⟨apply_eq_divisionByZero_iff, fun z hz => ?_, fun hdiv hno => ?_⟩
  · exact ⟨_, toInt_ofInt hz.inRange, apply_of_givesInteger hz⟩
  · rcases apply_on_reals hl hr hdiv hno with ⟨hlt, x, hnear, hok⟩ | ⟨hle, hover⟩
    · refine ⟨⟨fun h => ?_, fun hle => absurd hle (not_le_of_gt hlt)⟩, fun _ => ⟨x, hok, hnear⟩⟩
      rw [hok] at h
      cases h
    · exact ⟨⟨fun _ => hle, fun _ => hover⟩, fun hlt => absurd hle (not_le_of_gt hlt)⟩

/-- 2^53 + 1 lies in the middle between two doubles. -/
theorem applyAt_exact_middle :
    (Value.integer 9007199254740992).IsFinite ∧ (Value.real (.finite false .one)).IsFinite
      ∧ ∃ x, Operator.add.applyAt 3 (.integer 9007199254740992) (.real (.finite false .one))
          = .ok (.real x) ∧ x.IsNearest 9007199254740993 := by
  have hl : (Value.integer 9007199254740992).IsFinite := trivial
  have hr : (Value.real (.finite false .one)).IsFinite := rfl
  have hleft : (Value.integer 9007199254740992).asReal
      = .finite false ⟨0x4340000000000000, by decide⟩ := by decide +kernel
  have hunits : (⟨0x4340000000000000, by decide⟩ : Magnitude).units
      = 9007199254740992 <<< fractionPlaces := by decide +kernel
  have hexact : Operator.add.exactOnReals (.integer 9007199254740992) (.real (.finite false .one))
      = 9007199254740993 := by
    rw [exactOnReals, hleft, Value.asReal, toRat, toRat, Magnitude.toRat_of_units hunits,
      Magnitude.toRat_of_units Magnitude.units_one]
    norm_num [exact, withSign]
  have hlimit : 9007199254740993 < Magnitude.overflowLimit := by decide +kernel
  refine ⟨hl, hr, ?_⟩
  obtain ⟨_, _, hreal⟩ := applyAt_exact .add hl hr 3
  obtain ⟨_, hnear⟩ := hreal (fun h => by cases h.1) fun z hz => by
    obtain ⟨a, b, _, hb, _⟩ := hz.operands
    cases hb
  rw [← hexact]
  refine hnear ?_
  rw [hexact, abs_of_pos (by norm_num)]
  exact_mod_cast hlimit

end Operator

end Calculator
