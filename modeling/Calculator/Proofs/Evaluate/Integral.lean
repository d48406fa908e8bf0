import Calculator.Proofs.Evaluate.Meaning
import Calculator.Proofs.Expression.Exact

/-!
# Integer results

The result is an integer **exactly if the source spells an expression without a division
whose whole calculation keeps to the 64-bit integers**, and then it is the exact value of
that expression. Nothing that has become real turns into an integer again.

That such a source can be read at all has to be shown too. A literal has to keep to the
range only together with its signs, so the one that does not keep to it by itself,
2^63 behind a minus sign, must still be a number.
-/

namespace Calculator

/-- The one number that has to be negated to keep to the range is not too large for a double. -/
theorem isSome_round_of_eq {n : Nat} (h : n = 9223372036854775808) :
    (Binary64.Magnitude.round (n <<< Binary64.fractionPlaces) 1).isSome := by
  subst h
  decide +kernel

/-- **A literal that is in range with its signs reads as a number.** -/
theorem Factor.exists_literal {f : Factor} (h : Fits f.exact) :
    ∃ v, literal f.digits = .ok (.number v) := by
  have hle : Decimal.decimalValue f.digits ≤ 9223372036854775808 := by
    rw [Factor.exact, Sign.foldr_exact] at h
    cases hs : Sign.ofRun f.signs with
    | plus =>
        rw [hs] at h
        have hr : InRange (Decimal.decimalValue f.digits) := by
          rw [← fits_intCast_iff, Int.cast_natCast]
          exact h
        unfold InRange at hr
        omega
    | minus =>
        rw [hs] at h
        have hr : InRange (-(Decimal.decimalValue f.digits : Int)) := by
          rw [← fits_intCast_iff, Int.cast_neg, Int.cast_natCast]
          exact h
        unfold InRange at hr
        omega
  have hd : f.digits ≠ [] ∧ f.digits.all Char.isDigit :=
    ⟨f.digits_ne_nil, List.all_eq_true.mpr f.isDigit⟩
  unfold literal
  rw [Decimal.integer?_eq f.isDigit, Decimal.real?, if_pos hd]
  by_cases hr : InRange (Decimal.decimalValue f.digits)
  · rw [if_pos hr]
    exact ⟨_, rfl⟩
  · -- too large by itself, so it is the one that fits only when it is negated
    have hn : Decimal.decimalValue f.digits = 9223372036854775808 := by
      unfold InRange at hr
      omega
    obtain ⟨m, hm⟩ := Option.isSome_iff_exists.mp (isSome_round_of_eq hn)
    rw [if_neg hr, hm]
    exact ⟨_, rfl⟩

/-- What holds of the operators and of the words of the operands holds of the words of a chain. -/
theorem Chain.forall_mem_words {level : Level} {Operand : Type}
    {words : Operand → List (List Char)} {P : List Char → Prop}
    (hop : ∀ op : Operator, P op.text.toList) {c : Chain level Operand}
    (hx : ∀ x ∈ c.operands, ∀ w ∈ words x, P w) : ∀ w ∈ c.wordsWith words, P w := by
  induction c using Chain.induction_snoc with
  | single x => simpa using hx
  | snoc c op x ih =>
      rw [operands_snoc, List.forall_mem_append] at hx
      rw [wordsWith_snoc, List.forall_mem_append, List.forall_mem_cons]
      exact ⟨ih hx.1, hop op.1, hx.2 x List.mem_cons_self⟩

/-- **The words of an expression that keeps to the range read as tokens.** -/
theorem Expression.exists_reading {e : Expression} (h : e.StaysInRange) :
    ∀ w ∈ e.words, ∃ t, reading w = .ok t := by
  have hop : ∀ op : Operator, ∃ t, reading op.text.toList = .ok t := fun op => by
    obtain ⟨t, ht, _⟩ := op.reading_text
    exact ⟨t, ht⟩
  refine Chain.forall_mem_words hop fun t ht => Chain.forall_mem_words hop fun f hf => ?_
  have hfits : Fits f.exact := (h.operands t ht).operands f hf
  rw [Factor.words, List.forall_mem_append]
  refine ⟨fun w hw => ?_, fun w hw => ?_⟩
  · obtain ⟨s, _, rfl⟩ := List.mem_map.mp hw
    obtain ⟨t, ht, _⟩ := s.reading_text
    exact ⟨t, ht⟩
  · obtain ⟨v, hv⟩ := Factor.exists_literal hfits
    rw [List.mem_singleton.mp hw, f.numeral.reading]
    exact ⟨_, hv⟩

/--
**Integer results are exact, and exactly those.** There is no other way to an integer: a
source that makes a division or leaves the range anywhere has none.
-/
theorem evaluate_eq_integer_iff (source : String) (n : Int64) :
    (evaluate source = .ok (.integer n) ↔
      ∃ e : Expression, (spans source).map Span.text = e.words ∧ ['/'] ∉ e.words
        ∧ e.StaysInRange ∧ e.exact = n.toInt)
    ∧ ¬ ∃ e : Expression, (spans source).map Span.text = e.words
        ∧ (['/'] ∈ e.words ∨ ¬ e.StaysInRange) ∧ evaluate source = .ok (.integer n) := by
  refine ⟨⟨fun h => ?_, fun h => ?_⟩, ?_⟩
  · obtain ⟨_, e, hwords, hv⟩ := evaluate_eq_ok_iff.mp h
    obtain ⟨hslash, hrange, hexact⟩ := Expression.exactIntegers.sound hv
    exact ⟨e, hwords, hslash, hrange, hexact⟩
  · obtain ⟨e, hwords, hslash, hrange, hexact⟩ := h
    obtain ⟨m, hm⟩ := Expression.exactIntegers.complete hslash hrange
    obtain ⟨_, _, hmexact⟩ := Expression.exactIntegers.sound hm
    have hmn : m = n := Int64.toInt_inj.mp (Int.cast_injective (hmexact.symm.trans hexact))
    -- what is left is that the source can be read
    refine evaluate_eq_ok_iff.mpr ⟨fun sp hsp => ?_, e, hwords, hmn ▸ hm⟩
    obtain ⟨t, ht⟩ := Expression.exists_reading hrange sp.text
      (hwords ▸ List.mem_map_of_mem hsp)
    exact ⟨t, Span.outcome_eq_ok_iff.mpr ht⟩
  · intro hexists
    obtain ⟨e, hwords, hout, h⟩ := hexists
    obtain ⟨_, e', hwords', hv⟩ := evaluate_eq_ok_iff.mp h
    cases Expression.words_injective (hwords.symm.trans hwords')
    obtain ⟨hslash, hrange, _⟩ := Expression.exactIntegers.sound hv
    exact hout.elim hslash (fun hno => hno hrange)

example : evaluate "-9223372036854775808 + 1" = .ok (.integer (-9223372036854775807)) := by
  decide +kernel

end Calculator
