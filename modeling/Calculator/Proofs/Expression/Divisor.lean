import Calculator.Proofs.Value.Finite

/-!
# Divisors

The right operand of a division is a literal with signs, and never anything else. That
decides by its text alone how the division goes. A literal **of zeros only** is zero,
whatever its signs and however many zeros, and dividing by it is an error. Any other literal
is at least one without its signs, and dividing by it **always succeeds**: what stands to the
left is finite, and the quotient is no larger.
-/

namespace Calculator

/-- All the digits are zeros. -/
def Factor.IsZero (f : Factor) : Prop := ∀ c ∈ f.digits, c = '0'

instance (f : Factor) : Decidable f.IsZero := List.decidableBAll (fun c => c = '0') f.digits

/-- Among the words stands a division by a literal of zeros. -/
def DividesByZero (ws : List (List Char)) : Prop :=
  ∃ (as bs : List (List Char)) (f : Factor), f.IsZero ∧ ws = as ++ ['/'] :: (f.words ++ bs)

/-! ## The number of a literal -/

theorem digit_eq_zero_iff {c : Char} (h : c.isDigit) : c.toNat - '0'.toNat = 0 ↔ c = '0' := by
  refine ⟨fun hzero => ?_, fun hc => by rw [hc, Nat.sub_self]⟩
  have hge : '0'.toNat ≤ c.toNat := (Char.isDigit_iff_toNat.mp h).1
  exact Char.toNat_inj.mp (Nat.le_antisymm (Nat.le_of_sub_eq_zero hzero) hge)

theorem Decimal.ofDigitChars_eq_zero_iff {digits : List Char} (h : ∀ c ∈ digits, c.isDigit)
    (value : Nat) :
    Nat.ofDigitChars 10 digits value = 0 ↔ value = 0 ∧ ∀ c ∈ digits, c = '0' := by
  induction digits generalizing value with
  | nil => simp
  | cons c digits ih =>
      obtain ⟨hc, hdigits⟩ := List.forall_mem_cons.mp h
      rw [Nat.ofDigitChars_cons, ih hdigits, List.forall_mem_cons, ← digit_eq_zero_iff hc,
        ← and_assoc]
      refine and_congr_left fun _ => ?_
      omega

namespace Factor

theorem decimalValue_eq_zero_iff (f : Factor) :
    Decimal.decimalValue f.digits = 0 ↔ f.IsZero := by
  rw [Decimal.decimalValue, Decimal.ofDigitChars_eq_zero_iff f.isDigit, IsZero]
  simp

/-- A literal is an integer, or a real of 2^63 or more. -/
theorem literalValue_cases {f : Factor} {v : Value} (h : f.literalValue = .ok v) :
    (∃ n, v = .integer n ∧ n.toInt = Decimal.decimalValue f.digits)
      ∨ ∃ m, v = .real (.finite false m) ∧ Binary64.Magnitude.integerLimit.units ≤ m.units
        ∧ Decimal.decimalValue f.digits ≠ 0 := by
  by_cases hr : InRange (Decimal.decimalValue f.digits)
  · rw [literalValue_of_inRange hr] at h
    cases h
    exact .inl ⟨_, rfl, toInt_ofInt hr⟩
  · have hle : 0x8000000000000000 ≤ Decimal.decimalValue f.digits := by
      unfold InRange at hr
      omega
    unfold literalValue at h
    dsimp only at h
    rw [Value.ofInt?_of_not_inRange hr] at h
    generalize hround : Binary64.Magnitude.round
      (Decimal.decimalValue f.digits <<< Binary64.fractionPlaces) 1 = rounded at h
    cases rounded with
    | none => cases h
    | some m =>
        cases h
        exact .inr ⟨m, rfl, Binary64.Magnitude.units_le_of_round_whole
          Binary64.Magnitude.units_integerLimit hle hround, by omega⟩

/-- **A literal with its signs** is an integer, or a real that is no nearer to zero than 2^63. -/
theorem value_cases {f : Factor} {v : Value} (h : f.value = .ok v) :
    (∃ n, v = .integer n ∧ n.toInt.natAbs = Decimal.decimalValue f.digits)
      ∨ ∃ s m, v = .real (.finite s m) ∧ Binary64.Magnitude.integerLimit.units ≤ m.units
        ∧ Decimal.decimalValue f.digits ≠ 0 := by
  unfold value at h
  split at h
  · -- the number fits behind the minus sign
    rename_i w hw
    cases h
    by_cases hr : InRange (-(Decimal.decimalValue f.digits : Int))
    · rw [Value.ofInt?_of_inRange hr] at hw
      cases hw
      exact .inl ⟨_, rfl, by rw [toInt_ofInt hr]; omega⟩
    · rw [Value.ofInt?_of_not_inRange hr] at hw
      cases hw
  · rename_i hsign
    cases hlit : f.literalValue with
    | error cause => rw [hlit] at h; cases h
    | ok w =>
        rw [hlit] at h
        cases h
        rcases literalValue_cases hlit with ⟨n, rfl, hn⟩ | ⟨m, rfl, hm, hne⟩
        · cases hs : Sign.ofRun f.signs with
          | plus => exact .inl ⟨n, rfl, by omega⟩
          | minus =>
              -- what is an integer by itself is one behind a minus sign as well
              have hr := inRange_toInt n
              have hneg : InRange (-(Decimal.decimalValue f.digits : Int)) := by
                unfold InRange at hr ⊢
                omega
              exact absurd (Value.ofInt?_of_inRange hneg) (hsign _ hs)
        · cases Sign.ofRun f.signs with
          | plus => exact .inr ⟨false, m, rfl, hm, hne⟩
          | minus => exact .inr ⟨true, m, rfl, hm, hne⟩

/-- **A literal is zero just where its digits are.** -/
theorem isZero_value_iff {f : Factor} {v : Value} (h : f.value = .ok v) :
    v.isZero ↔ f.IsZero := by
  rw [← decimalValue_eq_zero_iff]
  rcases value_cases h with ⟨n, rfl, hn⟩ | ⟨s, m, rfl, hm, hne⟩
  · have hzero : n = 0 ↔ n.toInt = 0 := by
      rw [← Int64.toInt_inj]
      rfl
    rw [Value.isZero, beq_iff_eq, hzero]
    omega
  · have hlimit : Binary64.Magnitude.integerLimit.units ≠ 0 := by decide +kernel
    have hrank : m.rank ≠ 0 := fun hrank => by
      rw [Binary64.Magnitude.rank_eq_zero_iff] at hrank
      omega
    simp only [Value.isZero, Binary64.isZero, beq_iff_eq, hrank, hne]

/-- **A literal that is not zero is at least one**, its signs apart. -/
theorem atLeastOne_value {f : Factor} {v : Value} (h : f.value = .ok v) (hf : ¬ f.IsZero) :
    v.asReal.AtLeastOne := by
  rw [← decimalValue_eq_zero_iff] at hf
  rcases value_cases h with ⟨n, rfl, hn⟩ | ⟨s, m, rfl, hm, _⟩
  · obtain ⟨m, hm, hone⟩ := Binary64.exists_ofInt_eq (Value.natAbs_toInt_le n)
    exact ⟨_, m, hm, hone (by omega)⟩
  · refine ⟨s, m, rfl, Nat.le_trans ?_ hm⟩
    exact Binary64.Magnitude.units_le_units_iff.mpr (by decide)

theorem isFinite_value {f : Factor} {v : Value} (h : f.value = .ok v) : v.IsFinite := by
  rcases value_cases h with ⟨n, rfl, _⟩ | ⟨s, m, rfl, _⟩
  · trivial
  · rfl

end Factor

/-- **What terms are worth is finite**, as far as they have been read. -/
theorem Term.isFinite_value {t : Term} {v : Value} (h : t.value = .ok v) : v.IsFinite := by
  rcases t.single_or_snoc with ⟨f, rfl⟩ | ⟨t, op, f, rfl⟩
  · rw [Term.value, Chain.valueWith_single] at h
    exact Factor.isFinite_value h
  · -- the last operation has seen to it
    obtain ⟨l, r, _, _, happly⟩ := Chain.valueWith_snoc_eq_ok_iff.mp h
    exact Operator.isFinite_apply happly

/-! ## Dividing -/

namespace Operator

theorem apply_div_of_isZero {l r : Value} (h : r.isZero) :
    div.apply l r = .error .divisionByZero := by
  rw [apply, if_pos ⟨rfl, h⟩]

theorem apply_eq_divisionByZero {op : Operator} {l r : Value}
    (h : op.apply l r = .error .divisionByZero) : op = .div ∧ r.isZero := by
  unfold apply at h
  split at h
  · rename_i hzero
    exact hzero
  · split at h
    · cases h
    · unfold Value.ofReal at h
      split at h <;> cases h

/-- **Dividing a finite value by a literal succeeds**, unless the literal is zero. -/
theorem exists_div_literal {f : Factor} {l r : Value} (hl : l.IsFinite) (hr : f.value = .ok r)
    (hf : ¬ f.IsZero) : ∃ v, div.apply l r = .ok v := by
  have hnot : ¬ (div = div ∧ r.isZero) := fun h => hf ((Factor.isZero_value_iff hr).mp h.2)
  have hquotient : (l.asReal.div r.asReal).isFinite :=
    Binary64.isFinite_div hl.asReal (Factor.atLeastOne_value hr hf)
  rw [apply, if_neg hnot]
  exact ⟨.real (l.asReal.div r.asReal), by simp only [integral?, onReals, Value.ofReal, hquotient,
    if_true]⟩

end Operator

/-! ## Divisions by zero among the words -/

/-- A factor ends with the first literal. -/
theorem Factor.exists_words_append {f : Factor} {as bs cs : List (List Char)}
    {digits : List Char} (hd : Numeral digits) (h : f.words ++ bs = (as ++ [digits]) ++ cs) :
    ∃ more, as ++ [digits] = f.words ++ more := by
  rcases List.append_eq_append_iff.mp h with ⟨more, hmore, _⟩ | ⟨more, hwords, _⟩
  · exact ⟨more, hmore⟩
  · cases more using List.reverseRecOn with
    | nil => exact ⟨[], by rw [hwords, List.append_nil, List.append_nil]⟩
    | append_singleton more w =>
        -- otherwise the literal would be one of the signs
        rw [Factor.words, ← List.append_assoc] at hwords
        obtain ⟨hsigns, _⟩ := List.append_inj' hwords rfl
        exact absurd hd (not_numeral_of_mem_signs digits (by rw [hsigns]; simp))

theorem not_dividesByZero_of_slash_not_mem {ws : List (List Char)} (h : ['/'] ∉ ws) :
    ¬ DividesByZero ws := by
  rintro ⟨as, bs, f, _, rfl⟩
  exact h (by simp)

/--
**A chain with a value divides by no zero** if its operands do not. Where it is a chain of
divisions itself, `hdiv` says that the operand behind a division is none of zeros.
-/
theorem Chain.not_dividesByZero {level : Level} {Operand : Type}
    {words : Operand → List (List Char)} {value : Operand → Except Cause Value}
    (hends : ∀ x, ∃ (as : List (List Char)) (digits : List Char),
      words x = as ++ [digits] ∧ Numeral digits)
    (hx : ∀ {x v}, value x = .ok v → ¬ DividesByZero (words x))
    (hdiv : ∀ {op : Operator} {x l r v}, op.level = level → op = .div → value x = .ok r →
      op.apply l r = .ok v → ∀ f bs, words x = Factor.words f ++ bs → ¬ f.IsZero)
    {c : Chain level Operand} {v : Value} (hv : c.valueWith value = .ok v) :
    ¬ DividesByZero (c.wordsWith words) := by
  induction c using Chain.induction_snoc generalizing v with
  | single x =>
      rw [valueWith_single] at hv
      rw [wordsWith_single]
      exact hx hv
  | snoc c op x ih =>
      obtain ⟨l, r, hl, hr, happly⟩ := valueWith_snoc_eq_ok_iff.mp hv
      rw [wordsWith_snoc]
      rintro ⟨as, bs, f, hf, hwords⟩
      -- the division by the operand
      have hhere : op.1.text.toList :: words x = ['/'] :: (f.words ++ bs) → False := by
        intro h
        obtain ⟨hslash, htail⟩ := List.cons.inj h
        exact hdiv op.2 (Operator.text_eq_slash_iff.mp hslash.symm) hr happly f bs htail hf
      rcases List.append_eq_append_iff.mp hwords with ⟨mid, _, hmid⟩ | ⟨mid, hmid, htail⟩
      · cases mid with
        | nil => exact hhere hmid
        | cons w mid => exact hx hr ⟨mid, bs, f, hf, (List.cons.inj hmid).2⟩
      · cases mid with
        | nil => exact hhere htail.symm
        | cons w mid =>
            obtain ⟨rfl, hdivisor⟩ := List.cons.inj htail
            -- a division in the chain so far, whose divisor ends there too
            obtain ⟨front, digits, hlast, hd⟩ := words_eq_concat hends c
            cases mid using List.reverseRecOn with
            | nil =>
                have hslash : ['/'] = digits :=
                  (List.cons.inj (List.append_inj' (hmid.symm.trans hlast) rfl).2).1
                rw [← hslash] at hd
                exact absurd hd Operator.div.not_numeral
            | append_singleton mid w =>
                rw [← List.cons_append, ← List.append_assoc] at hmid
                have hw : w = digits :=
                  (List.cons.inj (List.append_inj' (hmid.symm.trans hlast) rfl).2).1
                obtain ⟨more, hmore⟩ := Factor.exists_words_append (hw ▸ hd) hdivisor
                refine ih hl ⟨as, more, f, hf, ?_⟩
                rw [hmid, List.append_assoc, List.cons_append, hmore]

theorem Factor.not_dividesByZero (f : Factor) : ¬ DividesByZero f.words :=
  not_dividesByZero_of_slash_not_mem f.slash_not_mem_words

theorem Term.not_dividesByZero {t : Term} {v : Value} (h : t.value = .ok v) :
    ¬ DividesByZero t.words := by
  refine Chain.not_dividesByZero Factor.words_eq_concat (fun {f _} _ => f.not_dividesByZero) ?_ h
  intro op g l r w _ hop hr happly f bs hwords hf
  obtain ⟨rfl, _⟩ := Factor.words_append_inj ((List.append_nil g.words).trans hwords)
  rw [hop, Operator.apply_div_of_isZero ((Factor.isZero_value_iff hr).mpr hf)] at happly
  cases happly

/-- **An expression with a value divides by no literal of zeros.** -/
theorem Expression.not_dividesByZero {e : Expression} {v : Value} (h : e.value = .ok v) :
    ¬ DividesByZero e.words := by
  refine Chain.not_dividesByZero Term.words_eq_concat Term.not_dividesByZero ?_ h
  intro op t l r w hlevel hop
  rw [hop] at hlevel
  exact absurd hlevel (by decide)

end Calculator
