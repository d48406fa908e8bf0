/-!
# Operators and signs

The four binary operators come in two levels: multiplication and division bind
tighter than addition and subtraction. `+` and `-` also stand in front of an operand
as its sign, and a run of signs amounts to one: **minus where it holds an odd number
of minus signs**, plus otherwise.
-/

namespace Calculator

/-- How tightly a binary operator binds. -/
inductive Level where
  | additive
  | multiplicative
deriving DecidableEq

/-- The binary operators. -/
inductive Operator where
  | add
  | sub
  | mul
  | div
deriving DecidableEq

namespace Operator

def level : Operator → Level
  | add | sub => .additive
  | mul | div => .multiplicative

/-- One of `+` and `-`. -/
def isAdditive (op : Operator) : Bool := op.level == .additive

/-- One of `*` and `/`. -/
def isMultiplicative (op : Operator) : Bool := op.level == .multiplicative

def text : Operator → String
  | add => "+"
  | sub => "-"
  | mul => "*"
  | div => "/"

end Operator

/-- The sign in front of an operand. -/
inductive Sign where
  | plus
  | minus
deriving DecidableEq

namespace Sign

/-- The sign that two signs in a row amount to. -/
def combine : Sign → Sign → Sign
  | s, plus => s
  | plus, minus => minus
  | minus, minus => plus

def text : Sign → String
  | plus => "+"
  | minus => "-"

theorem combine_assoc (r s t : Sign) : (r.combine s).combine t = r.combine (s.combine t) := by
  cases r <;> cases s <;> cases t <;> rfl

theorem plus_combine (s : Sign) : combine plus s = s := by cases s <;> rfl

/-- The sign that a run of signs amounts to. -/
def ofRun (signs : List Sign) : Sign := if signs.count minus % 2 = 1 then minus else plus

theorem ofRun_cons (s : Sign) (signs : List Sign) :
    ofRun (s :: signs) = s.combine (ofRun signs) := by
  unfold ofRun
  cases s with
  | plus => simp [plus_combine]
  | minus =>
      rw [List.count_cons_self]
      by_cases h : signs.count minus % 2 = 1
      · rw [if_neg (by omega), if_pos h]
        rfl
      · rw [if_pos (by omega), if_neg h]
        rfl

end Sign

end Calculator
