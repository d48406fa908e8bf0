import Calculator.Proofs.Evaluate.Position
import Calculator.Proofs.Expression.Divisor

/-!
# What can fail while computing

Two things can go wrong with an expression that is written correctly, and the text shows
which. **A division by zero** is a slash with a literal of zeros behind it, and where there
is one, no evaluation gets past it. **A result that is too large** comes from adding,
subtracting or multiplying, and never from dividing.
-/

namespace Calculator

section

variable {front back : String}

/-- A division by zero is a slash in front of a literal of zeros. -/
theorem FailsAcross.exists_zero (h : FailsAcross front back .divisionByZero) :
    ∃ (as more : List (List Char)) (f : Factor), (spans front).map Span.text = as ++ [['/']]
      ∧ WordsBehind front back f.words more ∧ f.IsZero := by
  cases h with
  | product op hfront hback _ hf happly =>
      obtain ⟨hop, hzero⟩ := Operator.apply_eq_divisionByZero happly
      rw [hop] at hfront
      exact ⟨_, _, _, hfront, hback, (Factor.isZero_value_iff hf).mp hzero⟩
  | sum op _ _ _ _ _ happly =>
      obtain ⟨hop, _⟩ := Operator.apply_eq_divisionByZero happly
      exact absurd (hop ▸ op.2) (by decide)

/-- A result that is too large is none of a division. -/
theorem FailsAcross.exists_operator (h : FailsAcross front back .overflow) :
    ∃ (as : List (List Char)) (op : Operator), (spans front).map Span.text = as ++ [op.text.toList]
      ∧ op ≠ .div := by
  cases h with
  | @product e f l r more op hfront _ hl hr happly =>
      refine ⟨_, op.1, hfront, fun hop => ?_⟩
      rw [hop] at happly
      by_cases hf : f.IsZero
      · rw [Operator.apply_div_of_isZero ((Factor.isZero_value_iff hr).mpr hf)] at happly
        cases happly
      · obtain ⟨v, hv⟩ := Operator.exists_div_literal (Term.isFinite_value hl) hr hf
        cases hv.symm.trans happly
  | sum op hfront _ _ _ _ _ =>
      exact ⟨_, op.1, hfront, fun hop => absurd (hop ▸ op.2) (by decide)⟩

end

/-- An error cuts the source where it points. -/
theorem exists_pointsBetween {source : String} {cause : Cause} {p : Nat}
    (h : evaluate source = .error ⟨cause, p⟩) :
    ∃ front back, source = front ++ back ∧ front.utf8ByteSize = p
      ∧ cause.PointsBetween front back := by
  have hends := ends_evaluate source
  rw [h] at hends
  cases hends with
  | error hitems hreads hstops =>
      obtain ⟨_, _, _, front, back, hcut, hstart, _, hpoints⟩ := hstops.exists_cut hitems hreads
      exact ⟨front, back, hcut.source_eq, hcut.start_eq.trans hstart, hpoints⟩

/-- **Why an evaluation fails in an operation**, and that no division by another literal does. -/
theorem causes_of_runtime_error :
    (∀ (source : String) (p : Nat), evaluate source = .error ⟨.divisionByZero, p⟩ →
      ∃ (front back : String) (as more : List (List Char)) (f : Factor),
        source = front ++ back ∧ front.utf8ByteSize = p
          ∧ (spans front).map Span.text = as ++ [['/']]
          ∧ WordsBehind front back f.words more ∧ f.IsZero)
    ∧ (∀ source : String, DividesByZero ((spans source).map Span.text) →
      ∀ v, evaluate source ≠ .ok v)
    ∧ (∀ (source : String) (p : Nat), evaluate source = .error ⟨.overflow, p⟩ →
      ∃ (front back : String) (as : List (List Char)) (op : Operator),
        source = front ++ back ∧ front.utf8ByteSize = p
          ∧ (spans front).map Span.text = as ++ [op.text.toList] ∧ op ≠ .div)
    ∧ ∀ (t : Term) (f : Factor) (l r : Value), t.value = .ok l → f.value = .ok r →
      ¬ f.IsZero → ∃ v, Operator.div.apply l r = .ok v := by
  refine ⟨fun source p h => ?_, fun source hdivides v h => ?_, fun source p h => ?_,
    fun t f l r hl hr hf => Operator.exists_div_literal (Term.isFinite_value hl) hr hf⟩
  · obtain ⟨front, back, hsource, hsize, hpoints⟩ := exists_pointsBetween h
    obtain ⟨as, more, f, hslash, hwords, hzero⟩ := FailsAcross.exists_zero hpoints
    exact ⟨front, back, as, more, f, hsource, hsize, hslash, hwords, hzero⟩
  · obtain ⟨_, e, hwords, hv⟩ := evaluate_eq_ok_iff.mp h
    exact Expression.not_dividesByZero hv (hwords ▸ hdivides)
  · obtain ⟨front, back, hsource, hsize, hpoints⟩ := exists_pointsBetween h
    obtain ⟨as, op, hop, hne⟩ := FailsAcross.exists_operator hpoints
    exact ⟨front, back, as, op, hsource, hsize, hop, hne⟩

/-- The digits of the largest number that has 308 of them. -/
def nines : List Char := List.replicate 308 '9'

/-- Nine times as much as that, and too much. -/
def tooLarge : String := String.ofList nines ++ "*9"

theorem toList_tooLarge : tooLarge.toList = nines ++ ['*', '9'] := by
  rw [tooLarge, String.toList_append, String.toList_ofList]
  rfl

theorem spans_tooLarge : spans tooLarge = [⟨0, nines⟩, ⟨308, ['*']⟩, ⟨309, ['9']⟩] := by
  have hd : Numeral nines :=
    ⟨by decide +kernel, fun c hc => by rw [List.eq_of_mem_replicate hc]; rfl⟩
  rw [spans, toList_tooLarge, spansFrom_run hd (by simp)]
  exact congrArg (List.cons _) (by decide +kernel)

theorem utf8ByteSize_tooLarge : tooLarge.utf8ByteSize = 310 := by
  rw [← byteSize_toList, toList_tooLarge]
  decide +kernel

-- the spans are taken from above, for finding them by evaluation takes long
theorem evaluate_tooLarge : evaluate tooLarge = .error ⟨.overflow, 309⟩ := by
  rw [evaluate, Reader.ofSource, Cursor.ofSource, spans_tooLarge, utf8ByteSize_tooLarge]
  decide +kernel

/-- One source of each kind, and a division that is carried out. -/
theorem causes_of_runtime_error_of_each_kind :
    (evaluate "5 / -00" = .error ⟨.divisionByZero, 4⟩
      ∧ ∃ (front back : String) (as more : List (List Char)) (f : Factor),
        "5 / -00" = front ++ back ∧ front.utf8ByteSize = 4
          ∧ (spans front).map Span.text = as ++ [['/']]
          ∧ WordsBehind front back f.words more ∧ f.IsZero)
    ∧ (DividesByZero ((spans "5 / -00").map Span.text) ∧ ∀ v, evaluate "5 / -00" ≠ .ok v)
    ∧ (evaluate tooLarge = .error ⟨.overflow, 309⟩
      ∧ ∃ (front back : String) (as : List (List Char)) (op : Operator),
        tooLarge = front ++ back ∧ front.utf8ByteSize = 309
          ∧ (spans front).map Span.text = as ++ [op.text.toList] ∧ op ≠ .div)
    ∧ ∃ v, Operator.div.apply (.integer 7) (.integer 2) = .ok v := by
  obtain ⟨hzero, hnever, hoverflow, hdiv⟩ := causes_of_runtime_error
  have hdivision : evaluate "5 / -00" = .error ⟨.divisionByZero, 4⟩ := by decide +kernel
  have hdivides : DividesByZero ((spans "5 / -00").map Span.text) :=
    ⟨[['5']], [], ⟨[.minus], ['0', '0'], by simp, List.all_eq_true.mp rfl⟩,
      by decide +kernel, by decide +kernel⟩
  refine ⟨⟨hdivision, hzero _ _ hdivision⟩, ⟨hdivides, hnever _ hdivides⟩,
    ⟨evaluate_tooLarge, hoverflow _ _ evaluate_tooLarge⟩, ?_⟩
  exact hdiv (.single ⟨[], ['7'], by simp, List.all_eq_true.mp rfl⟩)
    ⟨[], ['2'], by simp, List.all_eq_true.mp rfl⟩ _ _
    (by decide +kernel) (by decide +kernel) (by decide +kernel)

end Calculator
