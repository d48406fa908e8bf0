/-!
# Double-precision numbers

Real results are IEEE-754 doubles: one sign bit and a magnitude that is either a
whole number of *units* or infinite, and besides them a single not-a-number. A
unit is the smallest positive double, 2^-1074; every finite double is a multiple
of it.

The idea that carries this file is that **a finite magnitude is its rank**. List
the finite magnitudes in order of size and number them from 0. Ranks below 2^53
count units one by one; from there on each run of 2^52 ranks is a binade, in which
the step from one magnitude to the next is twice the step of the binade before. So
the rank splits into an exponent (the binade) and a significand (the place in it),
`units = significand · 2^exponent`, and two facts come for free: a larger rank is a
larger magnitude, and the rank is also the magnitude's bit pattern.

Equality of `Binary64` is equality bit for bit, so the two zeros differ. The
comparison that a program makes, where they agree and not-a-number differs from
itself, is `Binary64.equals`.
-/

namespace Calculator

namespace Binary64

/--
A unit is 2^-1074, and one is 2^1074 units. Written in binary or in decimal, a unit
ends at this place behind the point.
-/
def fractionPlaces : Nat := 1074

/--
A finite magnitude, given by its place among all finite magnitudes in order of
size. There are 2047 · 2^52 of them.
-/
@[ext] structure Magnitude where
  /-- How many magnitudes are smaller. -/
  rank : Nat
  rank_lt : rank < 0x7FF0000000000000
deriving DecidableEq

namespace Magnitude

/-- The smallest magnitude. -/
def zero : Magnitude := ⟨0, by decide⟩

/--
The binade: each step within it is 2^exponent units. The first two runs of 2^52 ranks
share exponent 0.
-/
def exponent (m : Magnitude) : Nat := m.rank / 0x10000000000000 - 1

/-- The place in the binade: below 2^53, and from exponent 1 on at least 2^52. -/
def significand (m : Magnitude) : Nat := m.rank - m.exponent * 0x10000000000000

/-- The magnitude as a multiple of the smallest positive one. -/
def units (m : Magnitude) : Nat := m.significand <<< m.exponent

theorem significand_lt (m : Magnitude) : m.significand < 0x20000000000000 := by
  unfold significand exponent; omega

/-- The rank is read off the exponent and the significand. -/
theorem rank_eq (m : Magnitude) : m.rank = m.exponent * 0x10000000000000 + m.significand := by
  unfold significand exponent; omega

/-- Past the first binade the leading digit of the significand is always there. -/
theorem le_significand {m : Magnitude} (h : m.exponent ≠ 0) :
    0x10000000000000 ≤ m.significand := by
  unfold exponent at h
  unfold significand exponent
  omega

end Magnitude

end Binary64

/-- A double-precision number. `negative` is its sign; not-a-number has none. -/
inductive Binary64 where
  | nan
  | infinity (negative : Bool)
  | finite (negative : Bool) (magnitude : Binary64.Magnitude)
deriving DecidableEq

namespace Binary64

/-- Neither infinite nor not-a-number. -/
def isFinite : Binary64 → Bool
  | finite _ _ => true
  | _ => false

/-- Zero of either sign. -/
def isZero : Binary64 → Bool
  | finite _ m => m.rank == 0
  | _ => false

/-- The signed number of units of a magnitude. -/
def signedUnits (negative : Bool) (m : Magnitude) : Int :=
  if negative then -m.units else m.units

/--
Equality as a program compares doubles: the two zeros are equal, and not-a-number
is equal to nothing, itself included.
-/
def equals : Binary64 → Binary64 → Bool
  | finite s m, finite t n => m == n && (s == t || m.rank == 0)
  | infinity s, infinity t => s == t
  | _, _ => false

/-- The same number with the other sign. Not-a-number has no sign to change. -/
def negate : Binary64 → Binary64
  | nan => nan
  | infinity s => infinity (!s)
  | finite s m => finite (!s) m

theorem negate_negate (x : Binary64) : x.negate.negate = x := by
  cases x <;> simp [negate]

end Binary64

end Calculator
