import Calculator.Expression.Rule

/-!
# Evaluating a source

The two questions that can be asked about a source as a whole: what is the value of
the expression that it spells, and has it one at all.
-/

namespace Calculator

/-- The value of the expression that a source spells, or the first error in it. -/
def evaluate (source : String) : Except Error Value :=
  match Reader.ofSource source with
  | .ok r => r.whole
  | .error e => .error e

/-- Whether a source spells an expression that has a value. -/
def check (source : String) : Except Error Unit :=
  match evaluate source with
  | .ok _ => .ok ()
  | .error e => .error e

end Calculator
