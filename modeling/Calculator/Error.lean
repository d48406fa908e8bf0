import Calculator.Token

/-!
# Errors

Whatever goes wrong has a cause and a place. The first five causes lie in the text
of the expression, the last two in the operations it asks for.
-/

namespace Calculator

/-- Why an expression has no value. -/
inductive Cause where
  /-- No token begins with this character. -/
  | invalidCharacter (character : Char)
  /-- The number that a literal spells is too large for a double. -/
  | literalTooLarge
  /-- Another kind of token was asked for. -/
  | unexpectedToken (expected found : Token)
  /-- Neither a sign nor a number where an operand has to stand. -/
  | unexpectedTokenInFactor (found : Token)
  /-- The expression is complete, and the source goes on. -/
  | trailingInput (found : Token)
  /-- The right operand of a division is zero. -/
  | divisionByZero
  /-- The result of an operation is no finite double. -/
  | overflow
deriving DecidableEq

namespace Cause

/-- The cause in words. -/
def message : Cause → String
  | invalidCharacter c => "Invalid character '" ++ String.singleton c ++ "'"
  | literalTooLarge => "Literal is too large"
  | unexpectedToken expected found =>
    "Unexpected token type: expected " ++ expected.text ++ ", found " ++ found.text
  | unexpectedTokenInFactor found => "Unexpected token type in factor: found " ++ found.text
  | trailingInput found => "Unexpected token after expression: found " ++ found.text
  | divisionByZero => "Division by zero"
  | overflow => "Result is too large"

/-- The cause lies in an operation, not in the text. -/
def isRuntime : Cause → Bool
  | divisionByZero | overflow => true
  | _ => false

end Cause

/-- A cause and the byte of the source it is found at. -/
structure Error where
  cause : Cause
  position : Nat
deriving DecidableEq

/-- The message leaves the place out. -/
def Error.message (e : Error) : String := e.cause.message

end Calculator
