import Calculator.Binary64.Arithmetic
import Calculator.Decimal.Shortest

/-!
# Values

A value is a 64-bit integer, which is exact, or a real, which is a double. Integers
become reals where an operation needs that, and never the other way round.
-/

namespace Calculator

/-- A value of an expression. -/
inductive Value where
  | integer (n : Int64)
  | real (x : Binary64)
deriving DecidableEq

namespace Value

/-- The integer `z` as a value, where it is in the range of 64-bit integers. -/
def ofInt? (z : Int) : Option Value :=
  if -9223372036854775808 ≤ z ∧ z ≤ 9223372036854775807 then some (integer (Int64.ofInt z))
  else none

/-- The value as a double, an integer rounded to the nearest one. -/
def asReal : Value → Binary64
  | integer n => Binary64.ofInt n.toInt
  | real x => x

/-- The integer zero, or a real zero of either sign. -/
def isZero : Value → Bool
  | integer n => n == 0
  | real x => x.isZero

def isReal : Value → Bool
  | integer _ => false
  | real _ => true

def isInteger : Value → Bool
  | integer _ => true
  | real _ => false

/-- Equality as a program compares values: of one kind, and reals as doubles. -/
def equals : Value → Value → Bool
  | integer m, integer n => m == n
  | real x, real y => x.equals y
  | _, _ => false

/-- Brings two values to one kind: both are reals afterwards, unless both were integers. -/
def promote : Value → Value → Value × Value
  | integer m, integer n => (integer m, integer n)
  | v, w => (real v.asReal, real w.asReal)

/-- An integer in decimal, a real as the shortest decimal that reads back. -/
def text : Value → String
  | integer n => (if n.toInt < 0 then "-" else "") ++ n.toInt.natAbs.repr
  | real x => String.ofList (Decimal.text x)

end Value

end Calculator
