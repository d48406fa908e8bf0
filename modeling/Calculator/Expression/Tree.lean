import Calculator.Arithmetic

/-!
# Expressions as trees

The grammar has three levels:

    expression := term (('+' | '-') term)*
    term       := factor (('*' | '/') factor)*
    factor     := number | '+' factor | '-' factor

A tree is a derivation in it. `words` gives back what it derives, the texts of the
tokens in order, and `value` says what it means: **literals with their signs first,
then the operations of a term from left to right, then those of the expression from
left to right**. No look-ahead and no position comes into it.
-/

namespace Calculator

/-- A run of digits behind a run of signs. -/
structure Factor where
  signs : List Sign
  digits : List Char
  digits_ne_nil : digits ≠ []
  isDigit : ∀ c ∈ digits, c.isDigit

/-- Operands joined by operators of one level. -/
structure Chain (level : Level) (Operand : Type) where
  first : Operand
  /-- Each further operand behind the operator that joins it. -/
  rest : List ({ op : Operator // op.level = level } × Operand)

abbrev Term := Chain .multiplicative Factor

abbrev Expression := Chain .additive Term

namespace Chain

variable {level : Level} {Operand : Type}

/-- The texts of the tokens, given those of an operand. -/
def wordsWith (words : Operand → List (List Char)) (c : Chain level Operand) :
    List (List Char) :=
  words c.first ++ c.rest.flatMap fun joined => joined.1.1.text.toList :: words joined.2

/-- The value from left to right, given that of an operand. -/
def valueWith (value : Operand → Except Cause Value) (c : Chain level Operand) :
    Except Cause Value := do
  c.rest.foldlM (fun left joined => do joined.1.1.apply left (← value joined.2))
    (← value c.first)

end Chain

namespace Factor

def words (f : Factor) : List (List Char) :=
  f.signs.map (fun sign => sign.text.toList) ++ [f.digits]

/-- The number that the digits spell, an integer as long as it fits. -/
def literalValue (f : Factor) : Except Cause Value :=
  let n := Decimal.decimalValue f.digits
  match Value.ofInt? n with
  | some value => .ok value
  | none =>
    match Binary64.Magnitude.round (n <<< Binary64.fractionPlaces) 1 with
    | some m => .ok (.real (.finite false m))
    | none => .error .literalTooLarge

/-- The signs and the number together, still an integer as long as that fits. -/
def value (f : Factor) : Except Cause Value :=
  match Sign.ofRun f.signs, Value.ofInt? (-(Decimal.decimalValue f.digits : Int)) with
  | .minus, some value => .ok value
  | sign, _ => f.literalValue.map sign.apply

end Factor

def Term.words (t : Term) : List (List Char) := t.wordsWith Factor.words

def Term.value (t : Term) : Except Cause Value := t.valueWith Factor.value

def Expression.words (e : Expression) : List (List Char) := e.wordsWith Term.words

def Expression.value (e : Expression) : Except Cause Value := e.valueWith Term.value

/-- Nothing derives from no words. -/
theorem Factor.words_ne_nil (f : Factor) : f.words ≠ [] := by
  simp [Factor.words]

theorem Term.words_ne_nil (t : Term) : t.words ≠ [] := by
  simp [Term.words, Chain.wordsWith, Factor.words_ne_nil]

theorem Expression.words_ne_nil (e : Expression) : e.words ≠ [] := by
  simp [Expression.words, Chain.wordsWith, Term.words_ne_nil]

end Calculator
