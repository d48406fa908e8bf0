import Calculator.Binary64.Arithmetic

/-!
# Runs of decimal digits

A literal is a run of the digits `0` to `9`, of any length and with any number of
leading zeros. `decimalValue` says what number it spells; the three readings below
say which values of the language that number can become:

* an **integer** where it is at most 2^63 - 1;
* a **negated integer** where it is at most 2^63, since the range of 64-bit integers
  reaches one further down than up;
* a **real**, the nearest double, where the number is not too large for one.

The two integer readings go digit by digit and give up as soon as the limit is
passed, which no later digit can repair.
-/

namespace Calculator.Decimal

/-- The number that a run of digits spells. -/
def decimalValue (digits : List Char) : Nat := Nat.ofDigitChars 10 digits 0

/-- Carries `value` on through `digits` while it stays within `limit`. -/
def boundedFrom (limit value : Nat) : List Char → Option Nat
  | [] => some value
  | digit :: rest =>
    let next := 10 * value + (digit.toNat - '0'.toNat)
    if digit.isDigit ∧ next ≤ limit then boundedFrom limit next rest else none

/-- The number that a run of digits spells, where it is at most `limit`. The empty run spells 0. -/
def boundedValue (limit : Nat) (digits : List Char) : Option Nat := boundedFrom limit 0 digits

/-- More digits never make the number smaller, so that a limit once passed stays passed. -/
theorem le_ofDigitChars (value : Nat) (digits : List Char) :
    value ≤ Nat.ofDigitChars 10 digits value := by
  induction digits generalizing value with
  | nil => simp
  | cons digit rest ih =>
      rw [Nat.ofDigitChars_cons]
      exact Nat.le_trans (by omega) (ih _)

theorem boundedFrom_eq_some_iff {limit value n : Nat} {digits : List Char} (h : value ≤ limit) :
    boundedFrom limit value digits = some n ↔
      (∀ c ∈ digits, c.isDigit) ∧ Nat.ofDigitChars 10 digits value = n ∧ n ≤ limit := by
  induction digits generalizing value with
  | nil =>
      simp only [boundedFrom, Option.some.injEq, List.not_mem_nil, false_implies, implies_true,
        Nat.ofDigitChars_nil, true_and]
      exact ⟨fun hn => ⟨hn, hn ▸ h⟩, fun hn => hn.1⟩
  | cons digit rest ih =>
      rw [boundedFrom, Nat.ofDigitChars_cons, List.forall_mem_cons]
      split
      · rename_i hd
        rw [ih hd.2, and_iff_right hd.1]
      · rename_i hd
        constructor
        · intro hn
          cases hn
        · rintro ⟨⟨hdigit, _⟩, rfl, hn⟩
          exact absurd ⟨hdigit, Nat.le_trans (le_ofDigitChars _ _) hn⟩ hd

/-- **The limit is kept exactly**: no run that stays within it is refused on the way. -/
theorem boundedValue_eq_some_iff {limit n : Nat} {digits : List Char} :
    boundedValue limit digits = some n ↔
      (∀ c ∈ digits, c.isDigit) ∧ decimalValue digits = n ∧ n ≤ limit :=
  boundedFrom_eq_some_iff (Nat.zero_le limit)

/-- The 64-bit integer that a run of digits spells. -/
def integer? (digits : List Char) : Option Int64 :=
  (boundedValue 9223372036854775807 digits).map fun n => Int64.ofInt n

/-- The 64-bit integer that a run of digits spells behind a minus sign. -/
def negatedInteger? (digits : List Char) : Option Int64 :=
  (boundedValue 9223372036854775808 digits).map fun n => Int64.ofInt (-n)

/-- The double nearest to the number that a run of digits spells. The empty run spells none. -/
def real? (digits : List Char) : Option Binary64 :=
  if digits ≠ [] ∧ digits.all Char.isDigit then
    (Binary64.Magnitude.round (decimalValue digits <<< Binary64.fractionPlaces) 1).map
      (Binary64.finite false)
  else none

end Calculator.Decimal
