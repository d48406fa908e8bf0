import Calculator.Binary64.Basic

/-!
# The 64-bit form of a double

The sign is the top bit and the rank of the magnitude fills the other 63; the first
pattern past the last rank is infinity, and every larger one is not-a-number. All
those are one value here, written as the usual quiet pattern.
-/

namespace Calculator.Binary64

private def signBit (negative : Bool) : Nat := if negative then 0x8000000000000000 else 0

/-- The pattern of a double, as a number below 2^64. -/
def toPattern : Binary64 → Nat
  | nan => 0x7FF8000000000000
  | infinity s => signBit s + 0x7FF0000000000000
  | finite s m => signBit s + m.rank

/-- The double that a pattern below 2^64 stands for. -/
def ofPattern (pattern : Nat) : Binary64 :=
  let negative := decide (0x8000000000000000 ≤ pattern)
  let rest := pattern % 0x8000000000000000
  if h : rest < 0x7FF0000000000000 then finite negative ⟨rest, h⟩
  else if rest = 0x7FF0000000000000 then infinity negative
  else nan

theorem toPattern_lt (x : Binary64) : x.toPattern < 0x10000000000000000 := by
  cases x with
  | nan => decide
  | infinity s => cases s <;> decide
  | finite s m =>
      have := m.rank_lt
      cases s <;> simp [toPattern, signBit] <;> omega

/-- No double is lost on the way through its pattern. -/
theorem ofPattern_toPattern (x : Binary64) : ofPattern x.toPattern = x := by
  cases x with
  | nan => rfl
  | infinity s => cases s <;> rfl
  | finite s m =>
      have := m.rank_lt
      cases s
      · have h : m.rank % 0x8000000000000000 = m.rank := by omega
        simp [ofPattern, toPattern, signBit, h, m.rank_lt]
        omega
      · have h : (0x8000000000000000 + m.rank) % 0x8000000000000000 = m.rank := by omega
        simp [ofPattern, toPattern, signBit, h, m.rank_lt]

end Calculator.Binary64
