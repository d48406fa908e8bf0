import Calculator.Arithmetic
import Calculator.Expression.Reader

/-!
# The rules of the grammar

A rule reads a value, and computes it as it goes. There is one for each level:

* a **factor** is a literal behind any number of signs;
* a **term** is factors joined by `*` and `/`;
* an **expression** is terms joined by `+` and `-`.

Terms and expressions are both chains, evaluated from left to right: as soon as an
operand is complete it is joined to what stands to its left, so a failing operation
is noticed before anything behind the token that is looked at then. An error keeps
what was read before it, and the reader can be used again from there.

Every rule leaves at most as much to read as it found, and `Rule` carries this fact
along, because a chain needs it of its operands in order to stop.
-/

namespace Calculator

/-- A way to read a value that leaves at most as much to read as there was. -/
structure Rule where
  run : Reader → Except Error Value × Reader
  run_le : ∀ r, (run r).2.remaining ≤ r.remaining

namespace Rule

/-- Reads signs and the literal behind them, `sign` being what the signs before amount to. -/
def signed (sign : Sign) (r : Reader) : Except Error Value × Reader :=
  match _ : r.current.sign? with
  | some next =>
    match _ : r.advance with
    | (.ok (), r') => signed (sign.combine next) r'
    | (.error e, r') => (.error e, r')
  | none =>
    match r.current with
    | .number value =>
      match r.advance with
      | (.ok (), r') => (.ok (sign.applyToLiteral r.span.text value), r')
      | (.error e, r') => (.error e, r')
    | found => (.error ⟨.unexpectedTokenInFactor found, r.span.start⟩, r)
termination_by r.remaining
decreasing_by exact Reader.advance_lt ‹_› (Reader.ne_endOfInput_of_sign? ‹_›)

theorem signed_le (sign : Sign) (r : Reader) : (signed sign r).2.remaining ≤ r.remaining := by
  fun_induction signed sign r with
  | case1 sign r next hs r' ha ih => exact Nat.le_trans ih (Reader.advance_le ha)
  | case2 sign r next hs e r' ha => exact Reader.advance_le ha
  | case3 sign r hs value hc r' ha => exact Reader.advance_le ha
  | case4 sign r hs value hc e r' ha => exact Reader.advance_le ha
  | case5 sign r hs hc => exact Nat.le_refl _

theorem signed_eq (sign : Sign) (r : Reader) :
    signed sign r =
      match r.current.sign? with
      | some next =>
        match r.advance with
        | (.ok (), r') => signed (sign.combine next) r'
        | (.error e, r') => (.error e, r')
      | none =>
        match r.current with
        | .number value =>
          match r.advance with
          | (.ok (), r') => (.ok (sign.applyToLiteral r.span.text value), r')
          | (.error e, r') => (.error e, r')
        | found => (.error ⟨.unexpectedTokenInFactor found, r.span.start⟩, r) := by
  rw [signed]
  split
  · rename_i hs
    rw [hs]
    split <;> rename_i ha <;> rw [ha]
  · rename_i hs
    rw [hs]

/-- A signed literal. -/
def factor : Rule := ⟨signed .plus, signed_le .plus⟩

/-- Joins further operands to `left`, for as long as an operator of the level follows. -/
def joinFrom (level : Level) (operand : Rule) (left : Value) (r : Reader) :
    Except Error Value × Reader :=
  match _ : r.operator? level with
  | none => (.ok left, r)
  | some op =>
    match _ : r.advance with
    | (.error e, r₁) => (.error e, r₁)
    | (.ok (), r₁) =>
      match _ : operand.run r₁ with
      | (.error e, r₂) => (.error e, r₂)
      | (.ok right, r₂) =>
        match op.applyAt r₁.span.start left right with
        | .error e => (.error e, r₂)
        | .ok value => joinFrom level operand value r₂
termination_by r.remaining
decreasing_by
  rename_i ho ha hr
  have h := operand.run_le r₁
  rw [hr] at h
  exact Nat.lt_of_le_of_lt h (Reader.advance_lt ha (Reader.ne_endOfInput_of_operator? ho))

theorem joinFrom_le (level : Level) (operand : Rule) (left : Value) (r : Reader) :
    (joinFrom level operand left r).2.remaining ≤ r.remaining := by
  fun_induction joinFrom level operand left r with
  | case1 left r ho => exact Nat.le_refl _
  | case2 left r op ho e r₁ ha => exact Reader.advance_le ha
  | case3 left r op ho r₁ ha e r₂ hr =>
      have h := operand.run_le r₁
      rw [hr] at h
      exact Nat.le_trans h (Reader.advance_le ha)
  | case4 left r op ho r₁ ha right r₂ hr e he =>
      have h := operand.run_le r₁
      rw [hr] at h
      exact Nat.le_trans h (Reader.advance_le ha)
  | case5 left r op ho r₁ ha right r₂ hr value hv ih =>
      have h := operand.run_le r₁
      rw [hr] at h
      exact Nat.le_trans ih (Nat.le_trans h (Reader.advance_le ha))

theorem joinFrom_eq (level : Level) (operand : Rule) (left : Value) (r : Reader) :
    joinFrom level operand left r =
      match r.operator? level with
      | none => (.ok left, r)
      | some op =>
        match r.advance with
        | (.error e, r₁) => (.error e, r₁)
        | (.ok (), r₁) =>
          match operand.run r₁ with
          | (.error e, r₂) => (.error e, r₂)
          | (.ok right, r₂) =>
            match op.applyAt r₁.span.start left right with
            | .error e => (.error e, r₂)
            | .ok value => joinFrom level operand value r₂ := by
  rw [joinFrom]
  split
  · rename_i ho
    rw [ho]
  · rename_i ho
    rw [ho]
    split
    · rename_i ha
      rw [ha]
    · rename_i ha
      rw [ha]
      split <;> rename_i hx <;> simp only [hx]

/-- Operands joined by the operators of a level, from left to right. -/
def chain (level : Level) (operand : Rule) : Rule where
  run r :=
    match operand.run r with
    | (.error e, r') => (.error e, r')
    | (.ok first, r') => joinFrom level operand first r'
  run_le r := by
    have h := operand.run_le r
    split
    · rename_i hr
      rw [hr] at h
      exact h
    · rename_i hr
      rw [hr] at h
      exact Nat.le_trans (joinFrom_le _ _ _ _) h

/-- Factors joined by `*` and `/`. -/
def term : Rule := chain .multiplicative factor

/-- Terms joined by `+` and `-`. -/
def expression : Rule := chain .additive term

end Rule

namespace Reader

/-- Reads an expression behind which the source has to end. -/
def whole (r : Reader) : Except Error Value :=
  match Rule.expression.run r with
  | (.error e, _) => .error e
  | (.ok value, r') =>
    match r'.current with
    | .endOfInput => .ok value
    | found => .error ⟨.trailingInput found, r'.span.start⟩

end Reader

end Calculator
