import Calculator.Proofs.Value.Operation

/-!
# Operands exchanged, and subtracting as adding

A sum and a product do not depend on the order of their operands, **whatever these are**:
integers and reals, infinities and not-a-number, down to the sign of a zero and to the error.

Subtracting is adding the right operand with a minus sign in front, but not quite. The smallest
integer has no negation among the integers, and becomes a real behind the minus sign; adding
that gives a real. **Subtracting it can still give an integer, just where the left operand is a
negative integer**, and this is the only exception. Values are compared as a program compares
them here, because the integer zero has no sign and the real zero has one.
-/

namespace Calculator

namespace Binary64

/-! ## Doubles -/

theorem add_comm (x y : Binary64) : x.add y = y.add x := by
  cases x with
  | nan => cases y <;> rfl
  | infinity s =>
      cases y with
      | infinity t =>
          simp only [add]
          by_cases hst : s = t
          · rw [hst]
          · rw [if_neg hst, if_neg (Ne.symm hst)]
      | _ => rfl
  | finite s m =>
      cases y with
      | finite t n => simp only [add, Int.add_comm (signedUnits s m), Bool.and_comm s]
      | _ => rfl

theorem mul_comm (x y : Binary64) : x.mul y = y.mul x := by
  cases x with
  | nan => cases y <;> rfl
  | infinity s => cases y <;> simp only [mul, Bool.xor_comm s]
  | finite s m => cases y <;> simp only [mul, Bool.xor_comm s, Nat.mul_comm m.units]

theorem round_not (s : Bool) (num den : Nat) : round (!s) num den = (round s num den).negate := by
  rw [round_def]
  dsimp only
  cases Magnitude.round num den <;> rfl

/-- **The double of the negated integer is the negated double**, but for the sign of zero. -/
theorem ofInt_neg {z : Int} (h : z ≠ 0) : ofInt (-z) = (ofInt z).negate := by
  have hsign : decide (-z < 0) = !decide (z < 0) := by
    rw [← decide_not, decide_eq_decide]
    omega
  rw [ofInt, ofInt, Int.natAbs_neg, hsign, round_not]

/-- **Numbers of opposite signs have a finite sum**, which is no larger than the larger one. -/
theorem isFinite_add_of_ne {s t : Bool} (h : s ≠ t) (m n : Magnitude) :
    ((finite s m).add (finite t n)).isFinite := by
  have hle : ∃ k : Magnitude, (signedUnits s m + signedUnits t n).natAbs ≤ k.units * 1 := by
    rcases Nat.le_total m.units n.units with hmn | hmn
    · refine ⟨n, ?_⟩
      cases s <;> cases t <;> simp [signedUnits] at h ⊢ <;> omega
    · refine ⟨m, ?_⟩
      cases s <;> cases t <;> simp [signedUnits] at h ⊢ <;> omega
  obtain ⟨k, hk⟩ := hle
  obtain ⟨sum, hsum, _⟩ := Magnitude.exists_round_le Nat.one_pos hk
  rw [add]
  split
  · rfl
  · rw [round_of_some hsum]
    rfl

end Binary64

/-! ## Values -/

/-- The same error, or two values that a program takes for equal. -/
def Agrees {ε : Type} : Except ε Value → Except ε Value → Prop
  | .ok v, .ok w => v.equals w
  | .error e, .error e' => e = e'
  | _, _ => False

namespace Operator

/-- Where nothing can be divided, the integer result comes first and then the real one. -/
theorem apply_of_ne_div {op : Operator} (h : op ≠ .div) (l r : Value) :
    op.apply l r = match op.integral? l r with
      | some v => .ok v
      | none => Value.ofReal (op.onReals l.asReal r.asReal) :=
  if_neg fun hdiv => h hdiv.1

/-- Addition and multiplication. -/
def IsCommutative (op : Operator) : Prop := op = .add ∨ op = .mul

theorem integral?_comm {op : Operator} (h : op.IsCommutative) (l r : Value) :
    op.integral? l r = op.integral? r l := by
  rcases h with rfl | rfl
  · cases l <;> cases r <;> simp only [integral?, Int.add_comm]
  · cases l <;> cases r <;> simp only [integral?, Int.mul_comm]

theorem onReals_comm {op : Operator} (h : op.IsCommutative) (x y : Binary64) :
    op.onReals x y = op.onReals y x := by
  rcases h with rfl | rfl
  · exact x.add_comm y
  · exact x.mul_comm y

/-- **The operands may be exchanged.** -/
theorem apply_comm {op : Operator} (h : op.IsCommutative) (l r : Value) :
    op.apply l r = op.apply r l := by
  have hdiv : op ≠ .div := by
    rcases h with rfl | rfl <;> decide
  rw [apply_of_ne_div hdiv, apply_of_ne_div hdiv, integral?_comm h, onReals_comm h]

theorem applyAt_comm {op : Operator} (h : op.IsCommutative) (position : Nat) (l r : Value) :
    op.applyAt position l r = op.applyAt position r l := by
  rw [applyAt, applyAt, apply_comm h]

end Operator

/-! ## Subtracting -/

theorem agrees_of_eq {op op' : Operator} {l r l' r' : Value}
    (h : op.apply l r = op'.apply l' r') : Agrees (op.apply l r) (op'.apply l' r') := by
  rw [← h]
  cases happly : op.apply l r with
  | error cause => exact rfl
  | ok v => exact (Operator.isFinite_apply happly).equals_self

/-- The position makes no difference. -/
theorem agrees_applyAt_iff {op op' : Operator} {l r l' r' : Value} {position : Nat} :
    Agrees (op.applyAt position l r) (op'.applyAt position l' r')
      ↔ Agrees (op.apply l r) (op'.apply l' r') := by
  unfold Operator.applyAt
  cases op.apply l r <;> cases op'.apply l' r' <;> simp [Agrees]

theorem agrees_ofReal (x : Binary64) : Agrees (Value.ofReal x) (Value.ofReal x) := by
  cases hx : Value.ofReal x with
  | error cause => exact rfl
  | ok v => exact (Value.isFinite_ofReal hx).equals_self

/-- A zero that is added may have either sign. -/
theorem agrees_add_zero (x : Binary64) (s t : Bool) :
    Agrees (Value.ofReal (x.add (.finite s .zero))) (Value.ofReal (x.add (.finite t .zero))) := by
  cases x with
  | nan => exact rfl
  | infinity b => exact rfl
  | finite b m =>
      have hzero : ∀ s, Binary64.signedUnits s .zero = 0 := by decide
      simp only [Binary64.add, hzero, Int.add_zero]
      by_cases hsum : Binary64.signedUnits b m = 0
      · -- both sums are zero, and zeros are equal whatever their signs
        rw [if_pos hsum, if_pos hsum]
        simp [Agrees, Value.ofReal, Binary64.isFinite, Value.equals, Binary64.equals,
          Binary64.Magnitude.zero]
      · rw [if_neg hsum, if_neg hsum]
        exact agrees_ofReal _

namespace Operator

theorem apply_of_integral?_eq_none {op : Operator} {l r : Value} (hdiv : op ≠ .div)
    (h : op.integral? l r = none) :
    op.apply l r = Value.ofReal (op.onReals l.asReal r.asReal) := by
  rw [apply_of_ne_div hdiv, h]

theorem sub_real (l : Value) (x : Binary64) :
    sub.apply l (.real x) = add.apply l (Sign.minus.apply (.real x)) := by
  have hsub : sub.integral? l (.real x) = none := by cases l <;> rfl
  have hadd : add.integral? l (.real x.negate) = none := by cases l <;> rfl
  rw [Sign.apply, apply_of_integral?_eq_none (by decide) hsub,
    apply_of_integral?_eq_none (by decide) hadd]
  rfl

/-- The left operand is a negative integer, and the right one is the smallest. Their difference
is an integer, which it is not as a sum. -/
def OnlyAsDifference (l r : Value) : Prop :=
  r = .integer Int64.minValue ∧ ∃ n : Int64, l = .integer n ∧ n.toInt < 0

theorem minus_minValue :
    Sign.minus.apply (.integer Int64.minValue)
      = .real (Binary64.ofInt Int64.minValue.toInt).negate := by
  have hr : ¬ InRange (-Int64.minValue.toInt) := by decide
  simp only [Sign.apply, Value.ofInt?_of_not_inRange hr]

/-- With the smallest integer on the right there is an integer result only for a negative
integer on the left. -/
theorem sub_minValue {l : Value} (h : ¬ OnlyAsDifference l (.integer Int64.minValue)) :
    sub.apply l (.integer Int64.minValue)
      = add.apply l (Sign.minus.apply (.integer Int64.minValue)) := by
  have hsub : sub.integral? l (.integer Int64.minValue) = none := by
    cases l with
    | real x => rfl
    | integer m =>
        refine Value.ofInt?_of_not_inRange fun hr => h ⟨rfl, m, rfl, ?_⟩
        have hmin : Int64.minValue.toInt = -9223372036854775808 := by decide
        unfold InRange at hr
        omega
  have hadd : ∀ x, add.integral? l (.real x) = none := fun x => by cases l <;> rfl
  rw [minus_minValue, apply_of_integral?_eq_none (by decide) hsub,
    apply_of_integral?_eq_none (by decide) (hadd _)]
  rfl

theorem minus_integer {n : Int64} (h : n ≠ Int64.minValue) :
    ∃ k : Int64, Sign.minus.apply (.integer n) = .integer k ∧ k.toInt = -n.toInt := by
  have hr : InRange (-n.toInt) := by
    have hn := inRange_toInt n
    have hne : n.toInt ≠ -9223372036854775808 := fun hmin => h (Int64.toInt_inj.mp hmin)
    unfold InRange at hn ⊢
    omega
  exact ⟨_, by simp only [Sign.apply, Value.ofInt?_of_inRange hr], toInt_ofInt hr⟩

/-- The negation of any other integer is an integer. Only where it is zero, which has a sign as
a real, it makes a difference which of the two is rounded. -/
theorem agrees_sub_integer (l : Value) {n k : Int64} (hk : k.toInt = -n.toInt) :
    Agrees (sub.apply l (.integer n)) (add.apply l (.integer k)) := by
  have hint : sub.integral? l (.integer n) = add.integral? l (.integer k) := by
    cases l with
    | real x => rfl
    | integer m => simp only [integral?, hk, Int.sub_eq_add_neg]
  cases hadd : add.integral? l (.integer k) with
  | some v =>
      refine agrees_of_eq ?_
      rw [apply_of_ne_div (by decide), apply_of_ne_div (by decide), hint, hadd]
  | none =>
      rw [apply_of_integral?_eq_none (by decide) (hint.trans hadd),
        apply_of_integral?_eq_none (by decide) hadd]
      simp only [onReals, Binary64.sub, Value.asReal, hk]
      by_cases hzero : n.toInt = 0
      · have hofInt : Binary64.ofInt 0 = .finite false .zero := by decide +kernel
        rw [hzero, Int.neg_zero, hofInt]
        exact agrees_add_zero _ _ _
      · rw [Binary64.ofInt_neg hzero]
        exact agrees_ofReal _

/-- **Subtracting is adding the right operand with a minus sign**, but for the exception. -/
theorem agrees_sub {l r : Value} (h : ¬ OnlyAsDifference l r) :
    Agrees (sub.apply l r) (add.apply l (Sign.minus.apply r)) := by
  cases r with
  | real x => exact agrees_of_eq (sub_real l x)
  | integer n =>
      by_cases hn : n = Int64.minValue
      · subst hn
        exact agrees_of_eq (sub_minValue h)
      · obtain ⟨k, hminus, hk⟩ := minus_integer hn
        rw [hminus]
        exact agrees_sub_integer l hk

/-- **In the exception** the one is an integer and the other a real. -/
theorem sub_of_onlyAsDifference {m : Int64} (h : m.toInt < 0) :
    ∃ (n : Int64) (x : Binary64),
      sub.apply (.integer m) (.integer Int64.minValue) = .ok (.integer n)
        ∧ n.toInt = m.toInt - Int64.minValue.toInt
        ∧ add.apply (.integer m) (Sign.minus.apply (.integer Int64.minValue)) = .ok (.real x) := by
  have hmin : Int64.minValue.toInt = -9223372036854775808 := by decide
  have hr : InRange (m.toInt - Int64.minValue.toInt) := by
    have hm := inRange_toInt m
    unfold InRange at hm ⊢
    omega
  obtain ⟨a, ha, _⟩ := Binary64.exists_ofInt_eq (Value.natAbs_toInt_le m)
  obtain ⟨b, hb, _⟩ := Binary64.exists_ofInt_eq (Value.natAbs_toInt_le Int64.minValue)
  -- the two doubles have opposite signs, so that nothing overflows
  have hfinite : ((Binary64.ofInt m.toInt).add
      (Binary64.ofInt Int64.minValue.toInt).negate).isFinite := by
    rw [ha, hb, decide_eq_true h, Binary64.negate]
    exact Binary64.isFinite_add_of_ne (by decide) a b
  have hsub : sub.apply (.integer m) (.integer Int64.minValue)
      = .ok (.integer (Int64.ofInt (m.toInt - Int64.minValue.toInt))) := by
    rw [apply_of_ne_div (by decide), integral?, Value.ofInt?_of_inRange hr]
  have hadd : add.apply (.integer m) (Sign.minus.apply (.integer Int64.minValue))
      = .ok (.real ((Binary64.ofInt m.toInt).add
          (Binary64.ofInt Int64.minValue.toInt).negate)) := by
    rw [minus_minValue, apply_of_integral?_eq_none (by decide) rfl]
    exact if_pos hfinite
  exact ⟨_, _, hsub, toInt_ofInt hr, hadd⟩

/-- **Operands may be exchanged, and subtracting is adding the negation**, on any values at all
and wherever the error would point. The only exception is a negative integer less the smallest
one: that is an integer, but a real as a sum. -/
theorem applyAt_symmetry (position : Nat) (l r : Value) :
    add.applyAt position l r = add.applyAt position r l
      ∧ mul.applyAt position l r = mul.applyAt position r l
      ∧ (Agrees (sub.applyAt position l r) (add.applyAt position l (Sign.minus.apply r))
          ↔ ¬ OnlyAsDifference l r)
      ∧ (OnlyAsDifference l r → ∃ (m n : Int64) (x : Binary64), l = .integer m
          ∧ n.toInt = m.toInt - Int64.minValue.toInt
          ∧ sub.applyAt position l r = .ok (.integer n)
          ∧ add.applyAt position l (Sign.minus.apply r) = .ok (.real x)) := by
  have hexception : OnlyAsDifference l r → ∃ (m n : Int64) (x : Binary64), l = .integer m
      ∧ n.toInt = m.toInt - Int64.minValue.toInt
      ∧ sub.applyAt position l r = .ok (.integer n)
      ∧ add.applyAt position l (Sign.minus.apply r) = .ok (.real x) := by
    rintro ⟨rfl, m, rfl, hm⟩
    obtain ⟨n, x, hsub, hn, hadd⟩ := sub_of_onlyAsDifference hm
    exact ⟨m, n, x, rfl, hn, applyAt_eq_ok_iff.mpr hsub, applyAt_eq_ok_iff.mpr hadd⟩
  refine ⟨applyAt_comm (.inl rfl) position l r, applyAt_comm (.inr rfl) position l r,
    ⟨fun hagrees hexcept => ?_, fun h => agrees_applyAt_iff.mpr (agrees_sub h)⟩, hexception⟩
  obtain ⟨m, n, x, _, _, hsub, hadd⟩ := hexception hexcept
  rw [hsub, hadd] at hagrees
  exact absurd hagrees Bool.false_ne_true

end Operator

end Calculator
