import Calculator.Operator
import Calculator.Value

/-!
# Tokens

What an expression is made of: numbers, the four operator characters and, once the
source is used up, its end. `+` and `-` are tokens of their own; whether one of them
is an operator or a sign shows only where it stands.
-/

namespace Calculator

/-- A token of an expression. -/
inductive Token where
  | number (value : Value)
  | plus
  | minus
  | star
  | slash
  | endOfInput
deriving DecidableEq

namespace Token

/-- The value of a number. -/
def value? : Token → Option Value
  | number value => some value
  | _ => none

/-- The binary operator that the token stands for behind an operand. -/
def operator? : Token → Option Operator
  | plus => some .add
  | minus => some .sub
  | star => some .mul
  | slash => some .div
  | number _ | endOfInput => none

/-- The sign that the token stands for in front of an operand. -/
def sign? : Token → Option Sign
  | plus => some .plus
  | minus => some .minus
  | _ => none

/-- The token that a character makes by itself. -/
def ofChar? : Char → Option Token
  | '+' => some plus
  | '-' => some minus
  | '*' => some star
  | '/' => some slash
  | _ => none

/-- Both are the same token, or both are numbers. -/
def sameKind : Token → Token → Bool
  | number _, number _ => true
  | t, u => t == u

/-- Equality as a program compares tokens: numbers by their values. -/
def equals : Token → Token → Bool
  | number v, number w => v.equals w
  | t, u => t == u

/-- How messages and token lists show the token. -/
def text : Token → String
  | number value => "number " ++ value.text
  | plus => "'+'"
  | minus => "'-'"
  | star => "'*'"
  | slash => "'/'"
  | endOfInput => "end of input"

end Token

end Calculator
