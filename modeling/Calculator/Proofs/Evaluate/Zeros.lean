import Calculator.Proofs.Evaluate.Blanks

/-!
# Leading zeros mean nothing

The digits of a literal are looked at in three ways: as an integer, as an integer behind a minus
sign, and as a real. None of them sees **zeros in front of a run of digits**, be the number at
the edge of what an integer can be or too large for any double.

So with zeros put in and without, a source is read in step. The run itself begins where it
began, and only what stands behind that place is pushed on.
-/

namespace Calculator

/-- So many zeros. -/
def zeros (count : Nat) : String := String.ofList (List.replicate count '0')

theorem toList_zeros (count : Nat) : (zeros count).toList = List.replicate count '0' :=
  String.toList_ofList

theorem byteSize_replicate_zero (count : Nat) : byteSize (List.replicate count '0') = count := by
  induction count with
  | zero => rfl
  | succ count ih =>
      rw [List.replicate_succ, byteSize_cons, ih]
      exact Nat.add_comm 1 count

/-! ## Literals -/

section

variable (count : Nat) (digits : List Char)

theorem Decimal.boundedFrom_zeros (limit : Nat) :
    boundedFrom limit 0 (List.replicate count '0' ++ digits) = boundedFrom limit 0 digits := by
  induction count with
  | zero => rfl
  | succ count ih =>
      rw [List.replicate_succ, List.cons_append, boundedFrom]
      simpa using ih

theorem Decimal.decimalValue_zeros :
    decimalValue (List.replicate count '0' ++ digits) = decimalValue digits := by
  unfold decimalValue
  induction count with
  | zero => rfl
  | succ count ih =>
      rw [List.replicate_succ, List.cons_append, Nat.ofDigitChars_cons]
      exact ih

theorem Decimal.integer?_zeros :
    integer? (List.replicate count '0' ++ digits) = integer? digits := by
  unfold integer? boundedValue
  rw [boundedFrom_zeros]

theorem Decimal.negatedInteger?_zeros :
    negatedInteger? (List.replicate count '0' ++ digits) = negatedInteger? digits := by
  unfold negatedInteger? boundedValue
  rw [boundedFrom_zeros]

end

theorem Numeral.zeros {digits : List Char} (h : Numeral digits) (count : Nat) :
    Numeral (List.replicate count '0' ++ digits) where
  ne_nil := List.append_ne_nil_of_right_ne_nil _ h.ne_nil
  isDigit := by
    intro c hc
    rcases List.mem_append.mp hc with hc | hc
    · rw [List.eq_of_mem_replicate hc]
      rfl
    · exact h.isDigit c hc

theorem Decimal.real?_zeros {digits : List Char} (h : Numeral digits) (count : Nat) :
    real? (List.replicate count '0' ++ digits) = real? digits := by
  have hcond : ∀ {ds : List Char}, Numeral ds → ds ≠ [] ∧ ds.all Char.isDigit :=
    fun hd => ⟨hd.ne_nil, List.all_eq_true.mpr hd.isDigit⟩
  unfold real?
  rw [if_pos (hcond h), if_pos (hcond (h.zeros count)), decimalValue_zeros]

/-- **Zeros in front change nothing in what a run of digits means.** -/
theorem literal_zeros {digits : List Char} (h : Numeral digits) (count : Nat) :
    literal (List.replicate count '0' ++ digits) = literal digits := by
  unfold literal
  rw [Decimal.integer?_zeros, Decimal.real?_zeros h]

theorem Span.alike_zeros {digits : List Char} (h : Numeral digits) (count : Nat) {f : Nat → Nat}
    {start : Nat} (hstart : f start = start) :
    Span.Alike f ⟨start, digits⟩ ⟨start, List.replicate count '0' ++ digits⟩ where
  start_eq := hstart.symm
  reading_eq := by rw [(h.zeros count).reading, h.reading, literal_zeros h]
  negated_eq := Decimal.negatedInteger?_zeros count digits

/-! ## Sources -/

/-- **With zeros put in and without, a source is read in step.** -/
theorem inStep_insert_zeros {source source' : String} {front digits back : List Char} {count : Nat}
    (h : MaximalRun front digits back) (hsource : source.toList = front ++ (digits ++ back))
    (hsource' : source'.toList = front ++ (List.replicate count '0' ++ digits ++ back)) :
    (Cursor.ofSource source).InStep (pushed (byteSize front + 1) count)
      (Cursor.ofSource source') := by
  have hpos : 0 < byteSize digits :=
    Nat.lt_of_lt_of_le (List.length_pos_iff.mpr h.numeral.ne_nil) (length_le_byteSize digits)
  refine ⟨?_, ?_⟩
  · have hwith : spans source' = spansFrom 0 front
        ++ ⟨byteSize front, List.replicate count '0' ++ digits⟩
          :: spansFrom (byteSize front + byteSize digits + count) back := by
      rw [MaximalRun.spans_eq ⟨h.numeral.zeros count, h.before, h.after⟩ hsource',
        byteSize_append, byteSize_replicate_zero, Nat.add_right_comm, Nat.add_assoc]
    have hbefore := forall₂_alike_moved (pushed (byteSize front + 1) count) (spansFrom 0 front)
    rw [map_moved_of_fixed fun p hp => pushed_of_lt (by omega)] at hbefore
    have hbehind := forall₂_alike_moved (pushed (byteSize front + 1) count)
      (spansFrom (byteSize front + byteSize digits) back)
    rw [map_moved_of_shifted fun p hp => pushed_of_le (by omega)] at hbehind
    have hrun := Span.alike_zeros h.numeral count (f := pushed (byteSize front + 1) count)
      (pushed_of_lt (Nat.le_refl _))
    have hspans : List.Forall₂ (Span.Alike (pushed (byteSize front + 1) count)) (spans source)
        (spans source') := by
      rw [h.spans_eq hsource, hwith]
      exact List.rel_append hbefore (List.Forall₂.cons hrun hbehind)
    exact hspans
  · have hsize : source'.utf8ByteSize
        = pushed (byteSize front + 1) count source.utf8ByteSize := by
      rw [← byteSize_toList, ← byteSize_toList, hsource, hsource']
      simp only [byteSize_append, byteSize_replicate_zero]
      rw [pushed_of_le (by omega)]
      omega
    exact hsize

/-- **Leading zeros mean nothing**, in whatever run of digits: they only push the positions
behind its start. -/
theorem evaluate_insert_zeros {front digits back : String}
    (h : MaximalRun front.toList digits.toList back.toList) (count : Nat) :
    evaluate (front ++ zeros count ++ digits ++ back)
      = (evaluate (front ++ digits ++ back)).mapError
          (Error.moved (pushed (front.utf8ByteSize + 1) count)) := by
  rw [← byteSize_toList front]
  refine evaluate_inStep (inStep_insert_zeros h ?_ ?_)
  · simp only [String.toList_append, List.append_assoc]
  · simp only [String.toList_append, List.append_assoc, toList_zeros]

end Calculator
