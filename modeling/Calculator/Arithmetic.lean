import Calculator.Decimal.Digits
import Calculator.Error

/-!
# Operations on values

Addition, subtraction and multiplication of two integers stay **exact as long as the
result is a 64-bit integer**. Everything else, every division included, is done on
doubles, to which integers are rounded first, and the result must be finite: an
infinity or a not-a-number is never a value of an expression. Dividing by a zero of
any kind is an error of its own.
-/

namespace Calculator

namespace Operator

/-- The exact result on two integers, where it is an integer in range. Quotients are always real. -/
def integral? : Operator → Value → Value → Option Value
  | add, .integer m, .integer n => Value.ofInt? (m.toInt + n.toInt)
  | sub, .integer m, .integer n => Value.ofInt? (m.toInt - n.toInt)
  | mul, .integer m, .integer n => Value.ofInt? (m.toInt * n.toInt)
  | _, _, _ => none

/-- The operation on doubles. -/
def onReals : Operator → Binary64 → Binary64 → Binary64
  | add => Binary64.add
  | sub => Binary64.sub
  | mul => Binary64.mul
  | div => Binary64.div

end Operator

/-- A double is a value of an expression only where it is finite. -/
def Value.ofReal (x : Binary64) : Except Cause Value :=
  if x.isFinite then .ok (.real x) else .error .overflow

/-- The value of `left op right`, or the cause why there is none. -/
def Operator.apply (op : Operator) (left right : Value) : Except Cause Value :=
  if op = .div ∧ right.isZero then .error .divisionByZero
  else
    match op.integral? left right with
    | some value => .ok value
    | none => Value.ofReal (op.onReals left.asReal right.asReal)

/-- As `apply`, an error being placed where the right operand starts. -/
def Operator.applyAt (position : Nat) (op : Operator) (left right : Value) : Except Error Value :=
  match op.apply left right with
  | .ok value => .ok value
  | .error cause => .error ⟨cause, position⟩

/-- The position comes in at the end, -/
theorem Operator.applyAt_eq_ok_iff {op : Operator} {position : Nat} {l r v : Value} :
    op.applyAt position l r = .ok v ↔ op.apply l r = .ok v := by
  unfold applyAt
  cases op.apply l r <;> simp

/-- and only into errors. -/
theorem Operator.applyAt_eq_error_iff {op : Operator} {position : Nat} {l r : Value} {e : Error} :
    op.applyAt position l r = .error e ↔
      ∃ cause, op.apply l r = .error cause ∧ e = ⟨cause, position⟩ := by
  unfold applyAt
  cases op.apply l r <;> simp [eq_comm]

/-- Only these two causes come from an operation. -/
theorem Operator.apply_eq_error {op : Operator} {l r : Value} {cause : Cause}
    (h : op.apply l r = .error cause) : cause = .divisionByZero ∨ cause = .overflow := by
  unfold apply at h
  split at h
  · cases h
    exact .inl rfl
  · split at h
    · cases h
    · unfold Value.ofReal at h
      split at h
      · cases h
      · cases h
        exact .inr rfl

namespace Sign

/-- The value with the sign in front. The smallest integer has no negation among the integers. -/
def apply : Sign → Value → Value
  | plus, v => v
  | minus, .integer n =>
    match Value.ofInt? (-n.toInt) with
    | some value => value
    | none => .real (Binary64.ofInt n.toInt).negate
  | minus, .real x => .real x.negate

/--
The value of a literal with the sign in front, `value` being what its digits read as.
The digits of the smallest integer are too many for an integer as long as they stand
alone, so behind a minus sign they are looked at again.
-/
def applyToLiteral (sign : Sign) (digits : List Char) (value : Value) : Value :=
  if sign = minus ∧ value.isReal then
    match Decimal.negatedInteger? digits with
    | some n => .integer n
    | none => sign.apply value
  else sign.apply value

end Sign

end Calculator
