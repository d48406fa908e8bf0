import Calculator.Binary64.Rounding

/-!
# Arithmetic on doubles

Every operation is exact arithmetic on units followed by one rounding. What is left
to say apart from that are the rules for infinities and not-a-number, and the sign
of a zero: a sum that cancels is positive zero unless both operands are negative
zeros, and a product or quotient is negative when exactly one operand is.
-/

namespace Calculator.Binary64

/-- A whole number, in units a multiple of 2^1074, rounded to the nearest double. -/
def ofInt (z : Int) : Binary64 := round (decide (z < 0)) (z.natAbs <<< fractionPlaces) 1

/-- The sum of the units is exact, and only then is it rounded. -/
def add : Binary64 → Binary64 → Binary64
  | nan, _ => nan
  | _, nan => nan
  | infinity s, infinity t => if s = t then infinity s else nan
  | infinity s, finite _ _ => infinity s
  | finite _ _, infinity t => infinity t
  | finite s m, finite t n =>
    let sum := signedUnits s m + signedUnits t n
    if sum = 0 then finite (s && t) .zero else round (decide (sum < 0)) sum.natAbs 1

/-- Subtracting is adding the number with the other sign. -/
def sub (x y : Binary64) : Binary64 := x.add y.negate

/-- Units times units are counted in steps of 2^-1074 units. -/
def mul : Binary64 → Binary64 → Binary64
  | nan, _ => nan
  | _, nan => nan
  | infinity s, infinity t => infinity (s ^^ t)
  | infinity s, finite t n => if n.rank = 0 then nan else infinity (s ^^ t)
  | finite s m, infinity t => if m.rank = 0 then nan else infinity (s ^^ t)
  | finite s m, finite t n => round (s ^^ t) (m.units * n.units) (1 <<< fractionPlaces)

/-- A quotient of units is a plain number, and so 2^1074 times as many units. -/
def div : Binary64 → Binary64 → Binary64
  | nan, _ => nan
  | _, nan => nan
  | infinity _, infinity _ => nan
  | infinity s, finite t _ => infinity (s ^^ t)
  | finite s _, infinity t => finite (s ^^ t) .zero
  | finite s m, finite t n =>
    if n.rank = 0 then if m.rank = 0 then nan else infinity (s ^^ t)
    else round (s ^^ t) (m.units <<< fractionPlaces) n.units

end Calculator.Binary64
