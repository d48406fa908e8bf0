import Calculator.Binary64.Rounding

/-!
# The shortest decimal of a double

A double is written with as few digits as possible such that **the text reads back**
as the same double, and among the texts of that length it is the one nearest to the
double. There is no exponent: the digits stand at their places, and empty places are
filled with zeros.

Decimals are whole numbers of *ticks* here, a tick being 10^-1074. One unit is
2^-1074 = 5^1074 · 10^-1074, so the exact value of any magnitude is a whole number of
ticks. A decimal with fewer digits is a multiple of a larger power of ten. So the
search goes down the powers of ten: at each it looks at the two multiples next to the
exact value, and the first power at which one of them reads back wins. At 10^0 the
exact value itself is a multiple, so the search always ends with a decimal that reads
back.
-/

namespace Calculator.Decimal

open Binary64

/-- One unit in ticks. -/
def ticksPerUnit : Nat := Nat.pow 5 fractionPlaces

/-- One in ticks. -/
def ticksPerOne : Nat := Nat.pow 10 fractionPlaces

/-- The exact value of a magnitude in ticks. -/
def exactTicks (m : Magnitude) : Nat := m.units * ticksPerUnit

/-- The decimal reads as the magnitude: of all magnitudes this one is nearest. -/
def readsAs (m : Magnitude) (ticks : Nat) : Bool :=
  Magnitude.round ticks ticksPerUnit == some m

/--
Of the powers of ten up to the one given, takes the largest that has a multiple
reading back, and of its multiples the one nearest to the exact value. Of two equally
near ones it takes the larger.
-/
def shortestUpTo (m : Magnitude) : (power : Nat) → Nat
  | 0 => exactTicks m
  | power + 1 =>
    let step := Nat.pow 10 (power + 1)
    let excess := exactTicks m % step
    let below := exactTicks m - excess
    let above := below + step
    if readsAs m below ∧ (2 * excess < step ∨ ¬ readsAs m above) then below
    else if readsAs m above then above
    else shortestUpTo m power

/-- The shortest decimal that reads back, in ticks. -/
def shortest (m : Magnitude) : Nat :=
  shortestUpTo m (Nat.toDigits 10 (exactTicks m)).length

theorem ticksPerUnit_pos : 0 < ticksPerUnit := by
  unfold ticksPerUnit
  generalize fractionPlaces = n
  exact Nat.pow_pos (by decide)

theorem readsAs_exactTicks (m : Magnitude) : readsAs m (exactTicks m) := by
  simp [readsAs, exactTicks, Magnitude.round_units m ticksPerUnit_pos]

theorem readsAs_shortestUpTo (m : Magnitude) (power : Nat) : readsAs m (shortestUpTo m power) := by
  induction power with
  | zero => exact readsAs_exactTicks m
  | succ power ih =>
      unfold shortestUpTo
      simp only
      split
      · rename_i h
        exact h.1
      · split
        · assumption
        · exact ih

/-- **The shortest decimal reads back.** -/
theorem readsAs_shortest (m : Magnitude) : readsAs m (shortest m) := readsAs_shortestUpTo m _

/-! ## Layout -/

/-- The point and the digits behind it, or nothing where there are none. -/
def fractionText (ticks : Nat) : List Char :=
  if ticks = 0 then []
  else
    let digits := (Nat.toDigits 10 ticks).leftpad fractionPlaces '0'
    '.' :: (digits.reverse.dropWhile (· == '0')).reverse

/-- A decimal written out: the digits before the point, then those behind it. -/
def ticksText (ticks : Nat) : List Char :=
  Nat.toDigits 10 (ticks / ticksPerOne) ++ fractionText (ticks % ticksPerOne)

/-- The text of a double. -/
def text : Binary64 → List Char
  | .nan => ['N', 'a', 'N']
  | .infinity negative => (if negative then ['-'] else []) ++ ['i', 'n', 'f']
  | .finite negative m => (if negative then ['-'] else []) ++ ticksText (shortest m)

end Calculator.Decimal
