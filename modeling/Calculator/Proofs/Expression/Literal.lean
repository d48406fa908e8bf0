import Calculator.Proofs.Source.Lexeme
import Calculator.Expression.Tree

/-!
# Signed literals

A literal is looked at twice: when it is read, as a number by itself, and behind a minus
sign once more, because the smallest integer has no positive counterpart. The tree asks
only once, with the sign in hand. This file shows that both come to the same: **a signed
literal is an integer as long as the number with its sign is one**, and the nearest
double otherwise.
-/

namespace Calculator

/-- The number `z` is a 64-bit integer. -/
def InRange (z : Int) : Prop := -9223372036854775808 ≤ z ∧ z ≤ 9223372036854775807

instance (z : Int) : Decidable (InRange z) := inferInstanceAs (Decidable (_ ∧ _))

namespace Value

theorem ofInt?_of_inRange {z : Int} (h : InRange z) : ofInt? z = some (integer (Int64.ofInt z)) :=
  if_pos h

theorem ofInt?_of_not_inRange {z : Int} (h : ¬ InRange z) : ofInt? z = none := if_neg h

end Value

theorem toInt_ofInt {z : Int} (h : InRange z) : (Int64.ofInt z).toInt = z :=
  Int64.toInt_ofInt_of_le h.1 (by have := h.2; omega)

theorem inRange_toInt (n : Int64) : InRange n.toInt := by
  have h₁ := n.le_toInt
  have h₂ := n.toInt_lt
  unfold InRange
  omega

namespace Decimal

/-- A run of digits is read as an integer exactly as long as it spells one. -/
theorem integer?_eq {digits : List Char} (h : ∀ c ∈ digits, c.isDigit) :
    integer? digits
      = if InRange (decimalValue digits) then some (Int64.ofInt (decimalValue digits))
        else none := by
  unfold integer?
  split
  · rename_i hr
    rw [(boundedValue_eq_some_iff (n := decimalValue digits)).mpr ⟨h, rfl, by have := hr.2; omega⟩]
    rfl
  · rename_i hr
    cases hb : boundedValue 9223372036854775807 digits with
    | none => rfl
    | some n =>
        obtain ⟨_, hn, hle⟩ := boundedValue_eq_some_iff.mp hb
        exact absurd ⟨by omega, by omega⟩ hr

theorem negatedInteger?_eq {digits : List Char} (h : ∀ c ∈ digits, c.isDigit) :
    negatedInteger? digits
      = if InRange (-(decimalValue digits : Int)) then
          some (Int64.ofInt (-(decimalValue digits : Int)))
        else none := by
  unfold negatedInteger?
  split
  · rename_i hr
    rw [(boundedValue_eq_some_iff (n := decimalValue digits)).mpr ⟨h, rfl, by have := hr.1; omega⟩]
    rfl
  · rename_i hr
    cases hb : boundedValue 9223372036854775808 digits with
    | none => rfl
    | some n =>
        obtain ⟨_, hn, hle⟩ := boundedValue_eq_some_iff.mp hb
        exact absurd ⟨by omega, by omega⟩ hr

end Decimal

/-- A literal read as an integer spells that integer. -/
theorem toInt_of_literal {digits : List Char} {n : Int64} (hd : ∀ c ∈ digits, c.isDigit)
    (h : literal digits = .ok (.number (.integer n))) :
    n.toInt = Decimal.decimalValue digits := by
  unfold literal at h
  rw [Decimal.integer?_eq hd] at h
  by_cases hr : InRange (Decimal.decimalValue digits)
  · rw [if_pos hr] at h
    cases h
    exact toInt_ofInt hr
  · rw [if_neg hr] at h
    cases hx : Decimal.real? digits <;> simp [hx] at h

/-- A literal read as a real is one that spells no integer. -/
theorem real?_of_literal {digits : List Char} {x : Binary64}
    (h : literal digits = .ok (.number (.real x))) :
    Decimal.integer? digits = none ∧ Decimal.real? digits = some x := by
  unfold literal at h
  split at h
  · cases h
  · rename_i hnone
    split at h
    · rename_i hx
      cases h
      exact ⟨hnone, hx⟩
    · cases h

/-- What a numeral is read as by itself is what the tree takes it for. -/
theorem Factor.literalValue_of_literal {f : Factor} {v : Value}
    (h : literal f.digits = .ok (.number v)) : f.literalValue = .ok v := by
  have hd : f.digits ≠ [] ∧ f.digits.all Char.isDigit :=
    ⟨f.digits_ne_nil, List.all_eq_true.mpr f.isDigit⟩
  unfold literal at h
  rw [Decimal.integer?_eq f.isDigit, Decimal.real?, if_pos hd] at h
  unfold Factor.literalValue
  dsimp only
  -- how the rounding goes does not matter, and no step may try to compute it
  generalize Binary64.Magnitude.round
    (Decimal.decimalValue f.digits <<< Binary64.fractionPlaces) 1 = rounded at h ⊢
  by_cases hr : InRange (Decimal.decimalValue f.digits)
  · rw [if_pos hr] at h
    cases h
    rw [Value.ofInt?_of_inRange hr]
  · rw [if_neg hr] at h
    rw [Value.ofInt?_of_not_inRange hr]
    cases rounded with
    | none => cases h
    | some m =>
        cases h
        rfl

/-- **The sign and the literal together** mean what the tree says. -/
theorem Factor.value_of_literal {f : Factor} {v : Value}
    (h : literal f.digits = .ok (.number v)) :
    f.value = .ok ((Sign.ofRun f.signs).applyToLiteral f.digits v) := by
  have hv := Factor.literalValue_of_literal h
  unfold Factor.value Sign.applyToLiteral
  cases hs : Sign.ofRun f.signs with
  | plus => simp [hv, Except.map]
  | minus =>
      rw [Decimal.negatedInteger?_eq f.isDigit]
      by_cases hr : InRange (-(Decimal.decimalValue f.digits : Int))
      · rw [Value.ofInt?_of_inRange hr, if_pos hr]
        cases v with
        | real x => simp [Value.isReal]
        | integer n =>
            -- the number fits by itself, so its negation is the negated integer
            have hn : n.toInt = Decimal.decimalValue f.digits := toInt_of_literal f.isDigit h
            simp [Value.isReal, Sign.apply, hn, Value.ofInt?_of_inRange hr]
      · rw [Value.ofInt?_of_not_inRange hr, if_neg hr]
        simp [hv, Except.map]

end Calculator
