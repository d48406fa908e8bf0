import Calculator.Proofs.Evaluate.Zeros
import Calculator.Proofs.Expression.Inserted

/-!
# The spelling of an operand

An operand can be written with more or fewer zeros and with more or fewer signs, and **how it is
written does not matter** for what a source evaluates to, as long as its number and its sign are
the same. Signs can be put in even where nothing follows that they could belong to: the source
has no value then, for the same reason as before.

For the signs the two readers have to start alike, but signs at the very beginning come in front
of all that a reader looks at. So both are given one more sign to look at first, a plus that
stands nowhere in the source.
-/

namespace Calculator

/-- A run of signs as it is written. -/
def Sign.written (signs : List Sign) : String :=
  String.ofList (signs.map fun s => s.text.toList).flatten

/-- Signs never touch digits. -/
theorem Apart.signs {front back : List Char} (h : Apart front back) (signs : List Sign) :
    Apart front ((Sign.written signs).toList ++ back) := by
  rw [Sign.written, String.toList_ofList]
  cases signs with
  | nil => exact h
  | cons s signs =>
      refine apart_of_head? fun c hc => ?_
      cases s <;> cases hc <;> rfl

/-- The words that are put in are the signs. -/
theorem map_text_items_signs {front back : String} (h : Apart front.toList back.toList)
    (signs : List Sign) :
    (items (front ++ Sign.written signs ++ back)).map Span.text
      = (spans front).map Span.text ++ ((signs.map fun s => s.text.toList)
          ++ ((spans back).map Span.text ++ [[]])) := by
  rw [items_eq, spans, String.toList_append, String.toList_append, List.append_assoc,
    spansFrom_append (h.signs signs), List.map_append, List.map_append, Sign.written,
    String.toList_ofList, texts_spansFrom_signs]
  simp [spans]

/-! ## The result of an evaluation -/

namespace Reader

/-- Behind an expression the source has to end. -/
def finish : Except Error Value × Reader → Except Error Value
  | (.error e, _) => .error e
  | (.ok value, r) =>
    match r.current with
    | .endOfInput => .ok value
    | found => .error ⟨.trailingInput found, r.span.start⟩

theorem whole_eq_finish (r : Reader) : r.whole = finish (Rule.expression.run r) := by
  unfold whole finish
  rcases Rule.expression.run r with ⟨e | v, r'⟩ <;> rfl

/-- A reader in front of a source, where it looks at a plus. -/
def before (source : String) : Reader := ⟨Cursor.ofSource source, .plus, ⟨0, ['+']⟩⟩

theorem faithful_before (source : String) : (before source).Faithful where
  lexeme := .inr (.other rfl rfl)
  reading := rfl
  pending := fun _ hsp => lexeme_of_mem_spans hsp

theorem items_before (source : String) :
    (before source).items = ⟨0, ['+']⟩ :: Calculator.items source := rfl

end Reader

/-- An evaluation is the rule on expressions, behind that plus. -/
theorem evaluate_eq_finish (source : String) :
    evaluate source = Reader.finish (Rule.expression.behind (Reader.before source)) := by
  unfold evaluate Reader.ofSource Reader.ofCursor Rule.behind Reader.advance Reader.before
  dsimp only
  rcases (Cursor.ofSource source).read with ⟨e | t, c⟩
  · rfl
  · exact Reader.whole_eq_finish _

/-- Results that agree come to the same value or the same cause. -/
theorem Agree.finish {signs : List Sign} {p p' : Except Error Value × Reader}
    (h : Agree signs p p') :
    (Reader.finish p').mapError Error.cause = (Reader.finish p).mapError Error.cause := by
  cases h with
  | error he => exact congrArg Except.error he
  | ok hmatch =>
      unfold Reader.finish
      dsimp only
      rw [hmatch.current_eq]
      split <;> rfl

/-- **In front of the two sources readers match**, and no number stands where signs are put in. -/
theorem matches_before {front back : String} {signs : List Sign}
    (h : Apart front.toList back.toList)
    (hno : ∀ sp ∈ (spans front).getLast?, ∀ v, sp.outcome ≠ .ok (.number v)) :
    (Reader.before (front ++ back)).Matches signs
      (Reader.before (front ++ Sign.written signs ++ back)) := by
  -- the word behind which they are put in, be it only the plus
  obtain ⟨ws, w, hw, hreading⟩ : ∃ ws w, ['+'] :: (spans front).map Span.text = ws ++ [w]
      ∧ ∀ v, reading w ≠ .ok (.number v) := by
    rcases List.eq_nil_or_concat (spans front) with hnil | ⟨init, last, hconcat⟩
    · rw [hnil]
      exact ⟨[], ['+'], rfl, fun v hv => by cases hv⟩
    · rw [hconcat, List.concat_eq_append] at hno ⊢
      refine ⟨['+'] :: init.map Span.text, last.text, by simp, fun v hv => ?_⟩
      exact hno last (by simp) v (Span.outcome_eq_ok_iff.mpr hv)
  have hwithout := map_text_items_signs h []
  rw [show Sign.written [] = "" from rfl, String.append_empty, List.map_nil,
    List.nil_append] at hwithout
  refine ⟨Reader.faithful_before _, Reader.faithful_before _, ?_⟩
  rw [Reader.items_before, Reader.items_before, List.map_cons, List.map_cons, hwithout,
    map_text_items_signs h, ← List.cons_append, ← List.cons_append, hw, List.append_assoc,
    List.append_assoc]
  exact SignsIn.append hreading ws _

/-- **Signs that amount to plus mean nothing** where no number stands right in front of them. -/
theorem evaluate_insert_signs {front back : String} {signs : List Sign}
    (h : Apart front.toList back.toList)
    (hno : ∀ sp ∈ (spans front).getLast?, ∀ v, sp.outcome ≠ .ok (.number v))
    (hplus : Sign.ofRun signs = .plus) :
    (evaluate (front ++ Sign.written signs ++ back)).mapError Error.cause
      = (evaluate (front ++ back)).mapError Error.cause := by
  rw [evaluate_eq_finish, evaluate_eq_finish]
  exact ((matches_before h hno).behind_agree (Rule.expression_skipsSigns hplus)
    (Rule.expression_agrees hplus) Token.noConfusion).finish

/--
**How an operand is spelled does not matter.** Zeros in front of a run of digits leave a source
what it is, errors behind them being moved on; and so do signs that amount to plus, wherever no
number stands right in front of them, as to its value and the cause of its error.
-/
theorem evaluate_respelled :
    (∀ (front digits back : String) (count : Nat),
      MaximalRun front.toList digits.toList back.toList →
        evaluate (front ++ zeros count ++ digits ++ back)
          = (evaluate (front ++ digits ++ back)).mapError
              (Error.moved (pushed (front.utf8ByteSize + 1) count)))
      ∧ ∀ (front back : String) (signs : List Sign),
        Apart front.toList back.toList →
        (∀ sp ∈ (spans front).getLast?, ∀ v, sp.outcome ≠ .ok (.number v)) →
        Sign.ofRun signs = .plus →
          (evaluate (front ++ Sign.written signs ++ back)).mapError Error.cause
            = (evaluate (front ++ back)).mapError Error.cause :=
  ⟨fun _ _ _ count h => evaluate_insert_zeros h count,
    fun _ _ _ h hno hplus => evaluate_insert_signs h hno hplus⟩

/-- The literal 9223372036854775808 is an integer only behind a minus sign, also with zeros in
front of it, or with two minus signs more. -/
theorem evaluate_respelled_integerLimit :
    evaluate ("-" ++ "9223372036854775808" ++ "/-0") = .error ⟨.divisionByZero, 21⟩
      ∧ evaluate ("-" ++ zeros 2 ++ "9223372036854775808" ++ "/-0") = .error ⟨.divisionByZero, 23⟩
      ∧ evaluate ("-" ++ "9223372036854775808")
        = .ok (.integer (Int64.ofInt (-9223372036854775808)))
      ∧ evaluate ("-" ++ Sign.written [.minus, .minus] ++ "9223372036854775808")
        = .ok (.integer (Int64.ofInt (-9223372036854775808))) := by
  have hdivided : evaluate ("-" ++ "9223372036854775808" ++ "/-0")
      = .error ⟨.divisionByZero, 21⟩ := by decide +kernel
  have hsmallest : evaluate ("-" ++ "9223372036854775808")
      = .ok (.integer (Int64.ofInt (-9223372036854775808))) := by decide +kernel
  have hrun : MaximalRun "-".toList "9223372036854775808".toList "/-0".toList :=
    ⟨⟨by decide, List.all_eq_true.mp rfl⟩, by rintro c ⟨⟩; rfl, by rintro c ⟨⟩; rfl⟩
  have hapart : Apart "-".toList "9223372036854775808".toList := by
    simp [Apart]
  have hno : ∀ sp ∈ (spans "-").getLast?, ∀ v, sp.outcome ≠ .ok (.number v) := by
    have hspans : spans "-" = [⟨0, ['-']⟩] := by decide +kernel
    rw [hspans]
    rintro sp ⟨⟩ v hv
    cases hv
  refine ⟨hdivided, ?_, hsmallest, ?_⟩
  · rw [evaluate_respelled.1 _ _ _ 2 hrun, hdivided]
    rfl
  · have hsigns := evaluate_respelled.2 _ _ [.minus, .minus] hapart hno (by decide)
    rw [hsmallest] at hsigns
    generalize evaluate ("-" ++ Sign.written [.minus, .minus] ++ "9223372036854775808") = outcome
      at hsigns ⊢
    cases outcome with
    | error e => cases hsigns
    | ok v => exact congrArg Except.ok (Except.ok.inj hsigns)

end Calculator
