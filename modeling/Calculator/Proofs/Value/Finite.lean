import Calculator.Proofs.Binary64.Order
import Calculator.Proofs.Expression.Exact

/-!
# Values are finite

No infinity and no not-a-number is ever the value of an expression. It is not kept out in
one place: **literals** are read as finite numbers or not at all, **signs** change no
magnitude, and **operations** look at their result before they let it out, whatever they
were given. Division needs that look least: a divisor is a signed literal, and unless it is
zero it is at least one, so that nothing is made larger.
-/

namespace Calculator

namespace Value

/-- An integer or a finite real. -/
def IsFinite : Value → Prop
  | integer _ => True
  | real x => x.isFinite

/-- What a run of digits can be read as: an integer, or a real that is too large for one. -/
def IsLexed : Value → Prop
  | integer n => 0 ≤ n.toInt
  | real (.finite false m) => 0x8000000000000000 <<< Binary64.fractionPlaces ≤ m.units
  | real _ => False

theorem IsLexed.isFinite {v : Value} (h : v.IsLexed) : v.IsFinite := by
  cases v with
  | integer n => trivial
  | real x =>
      cases x with
      | finite s m => rfl
      | _ => exact h.elim

/-- **Finite values equal themselves.** -/
theorem IsFinite.equals_self {v : Value} (h : v.IsFinite) : v.equals v := by
  cases v with
  | integer n => simp [equals]
  | real x => exact Binary64.equals_self_of_isFinite h

theorem isFinite_ofInt {z : Int} {v : Value} (h : ofInt? z = some v) : v.IsFinite := by
  unfold ofInt? at h
  split at h
  · cases h
    trivial
  · cases h

theorem natAbs_toInt_le (n : Int64) : n.toInt.natAbs ≤ 0x8000000000000000 := by
  have := inRange_toInt n
  unfold InRange at this
  omega

theorem IsFinite.asReal {v : Value} (h : v.IsFinite) : v.asReal.isFinite := by
  cases v with
  | integer n =>
      obtain ⟨m, hm, _⟩ := Binary64.exists_ofInt_eq (natAbs_toInt_le n)
      rw [Value.asReal, hm]
      rfl
  | real x => exact h

end Value

/-! ## Literals -/

theorem Decimal.toInt_nonneg_of_integer? {digits : List Char} {n : Int64}
    (h : integer? digits = some n) : 0 ≤ n.toInt := by
  unfold integer? at h
  cases hk : boundedValue 9223372036854775807 digits with
  | none => rw [hk] at h; cases h
  | some k =>
      rw [hk] at h
      cases h
      obtain ⟨_, _, hle⟩ := boundedValue_eq_some_iff.mp hk
      rw [toInt_ofInt (by unfold InRange; omega)]
      exact Int.natCast_nonneg k

/-- What is no 64-bit integer any more is 2^63 or more. -/
theorem Decimal.le_of_integer?_eq_none {digits : List Char} (hd : ∀ c ∈ digits, c.isDigit)
    (h : integer? digits = none) : 0x8000000000000000 ≤ decimalValue digits := by
  rw [integer?_eq hd] at h
  split at h
  · cases h
  · rename_i hr
    unfold InRange at hr
    omega

theorem Decimal.le_units_of_real? {digits : List Char} {x : Binary64}
    (hi : integer? digits = none) (h : real? digits = some x) : (Value.real x).IsLexed := by
  unfold real? at h
  split at h
  · rename_i hdigits
    obtain ⟨m, hround, rfl⟩ := Option.map_eq_some_iff.mp h
    have hle := le_of_integer?_eq_none (List.all_eq_true.mp hdigits.2) hi
    have hlimit := Binary64.Magnitude.units_le_of_round_whole
      Binary64.Magnitude.units_integerLimit hle hround
    rw [Binary64.Magnitude.units_integerLimit] at hlimit
    exact hlimit
  · cases h

/-- **What a literal is read as**: no negative integer, and no real below 2^63. -/
theorem isLexed_of_literal {text : List Char} {v : Value} (h : literal text = .ok (.number v)) :
    v.IsLexed := by
  unfold literal at h
  split at h
  · rename_i n hn
    cases h
    exact Decimal.toInt_nonneg_of_integer? hn
  · rename_i hnone
    split at h
    · rename_i x hx
      cases h
      exact Decimal.le_units_of_real? hnone hx
    · cases h

/-! ## Signs -/

namespace Sign

theorem isFinite_apply (sign : Sign) {v : Value} (h : v.IsFinite) : (sign.apply v).IsFinite := by
  cases sign with
  | plus => exact h
  | minus =>
      cases v with
      | integer n =>
          unfold apply
          dsimp only
          split
          · rename_i hv
            exact Value.isFinite_ofInt hv
          · -- only the smallest integer, and its negation is finite as a real
            rw [Value.IsFinite, Binary64.isFinite_negate]
            exact Value.IsFinite.asReal (v := .integer n) trivial
      | real x =>
          rw [apply, Value.IsFinite, Binary64.isFinite_negate]
          exact h

theorem isFinite_applyToLiteral (sign : Sign) (digits : List Char) {v : Value} (h : v.IsFinite) :
    (sign.applyToLiteral digits v).IsFinite := by
  unfold applyToLiteral
  split
  · split
    · trivial
    · exact sign.isFinite_apply h
  · exact sign.isFinite_apply h

end Sign

/-! ## Operations -/

theorem Value.isFinite_ofReal {x : Binary64} {v : Value} (h : ofReal x = .ok v) : v.IsFinite := by
  unfold ofReal at h
  split at h
  · rename_i hx
    cases h
    exact hx
  · cases h

theorem Operator.isFinite_integral? {op : Operator} {l r v : Value}
    (h : op.integral? l r = some v) : v.IsFinite := by
  obtain ⟨hdiv, a, b, rfl, rfl⟩ := integers_of_integral? h
  obtain ⟨z, _, hz⟩ := integral?_integer hdiv a b
  exact Value.isFinite_ofInt (hz ▸ h)

/-- **Operations give finite values**, whatever they are given. -/
theorem Operator.isFinite_apply {op : Operator} {l r v : Value} (h : op.apply l r = .ok v) :
    v.IsFinite := by
  unfold apply at h
  split at h
  · cases h
  · split at h
    · rename_i hv
      cases h
      exact isFinite_integral? hv
    · exact Value.isFinite_ofReal h

end Calculator
