import Calculator.Proofs.Expression.InStep
import Calculator.Proofs.Source.Join

/-!
# Blanks mean nothing

Blanks put anywhere into a source, so long as they do not part a run of digits, leave its
evaluation as it is: **the same value, or the same error**, which points further on if it
points to something behind the blanks. They may be put in front of everything, behind
everything, and next to other blanks.

The spans of the two sources are the same texts in other places, so readers of the two
are in step, and the rest follows from that. Since the places can be told back, blanks
can be taken out as well as put in.
-/

namespace Calculator

theorem Span.alike_moved (f : Nat → Nat) (sp : Span) : sp.Alike f (sp.moved f) := ⟨rfl, rfl, rfl⟩

/-- Spans that are only moved read alike. -/
theorem forall₂_alike_moved (f : Nat → Nat) (sps : List Span) :
    List.Forall₂ (Span.Alike f) sps (sps.map (Span.moved f)) := by
  rw [List.forall₂_map_right_iff, List.forall₂_same]
  exact fun sp _ => sp.alike_moved f

/-- **With blanks put in and without, a source is read in step.** -/
theorem inStep_insert_blanks {front blanks back : String} (hb : ∀ c ∈ blanks.toList, isBlank c)
    (h : Apart front.toList back.toList) :
    (Cursor.ofSource (front ++ back)).InStep (pushed front.utf8ByteSize blanks.utf8ByteSize)
      (Cursor.ofSource (front ++ blanks ++ back)) := by
  refine ⟨?_, ?_⟩
  · have hspans := forall₂_alike_moved (pushed front.utf8ByteSize blanks.utf8ByteSize)
      (spans (front ++ back))
    rw [← spans_insert_blanks hb h] at hspans
    exact hspans
  · -- the end of the source stands behind the blanks
    have hsize : (front ++ blanks ++ back).utf8ByteSize
        = pushed front.utf8ByteSize blanks.utf8ByteSize (front ++ back).utf8ByteSize := by
      simp only [String.utf8ByteSize_append]
      rw [pushed, if_pos (Nat.le_add_right _ _)]
      omega
    exact hsize

theorem mapError_moved_cancel {f g : Nat → Nat} (h : ∀ n, g (f n) = n)
    (outcome : Except Error Value) :
    (outcome.mapError (Error.moved f)).mapError (Error.moved g) = outcome := by
  cases outcome with
  | ok v => rfl
  | error e => simp only [Except.mapError, Error.moved, h]

/--
**Blanks mean nothing**, wherever they stand outside a run of digits: put in, they only push
the positions behind them, and taken out again, they pull them back.
-/
theorem evaluate_insert_blanks {front blanks back : String}
    (hb : ∀ c ∈ blanks.toList, isBlank c) (h : Apart front.toList back.toList) :
    evaluate (front ++ blanks ++ back)
        = (evaluate (front ++ back)).mapError
            (Error.moved (pushed front.utf8ByteSize blanks.utf8ByteSize))
      ∧ evaluate (front ++ back)
        = (evaluate (front ++ blanks ++ back)).mapError
            (Error.moved (pulled front.utf8ByteSize blanks.utf8ByteSize)) := by
  have hpushed := evaluate_inStep (inStep_insert_blanks hb h)
  refine ⟨hpushed, ?_⟩
  rw [hpushed, mapError_moved_cancel (pulled_pushed _ _)]

/-- A blank of three bytes right in front of a divisor, where the error points. -/
theorem evaluate_insert_blanks_before_divisor :
    (∀ c ∈ "\u2003".toList, isBlank c) ∧ Apart "7 /".toList "-0".toList
      ∧ evaluate ("7 /" ++ "-0") = .error ⟨.divisionByZero, 3⟩
      ∧ evaluate ("7 /" ++ "\u2003" ++ "-0") = .error ⟨.divisionByZero, 6⟩ := by
  have hb : ∀ c ∈ "\u2003".toList, isBlank c :=
    List.all_eq_true.mp (by decide +kernel)
  have hapart : Apart "7 /".toList "-0".toList := by
    simp [Apart]
  have hwithout : evaluate ("7 /" ++ "-0") = .error ⟨.divisionByZero, 3⟩ := by decide +kernel
  refine ⟨hb, hapart, hwithout, ?_⟩
  rw [(evaluate_insert_blanks hb hapart).1, hwithout]
  rfl

end Calculator
