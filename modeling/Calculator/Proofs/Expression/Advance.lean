import Calculator.Expression.Rule
import Calculator.Proofs.Source.Lexeme

/-!
# Whatever is called, a reader reads on

A reader changes in one way only: it reads on. `Reader.Steps` keeps the log of it, what each
read gave, be it a token or an error. **Every rule is a number of such steps**, and a step that
fails is the last one of its rule, which then fails with the same error. So what the rules
report of their reads is the log: no error of a read is kept back, none comes twice, and the
other errors come of no read.

The walk through the rules is made once, for any relation that holds of a single read and may be
put together (`Reader.Traces`). The log is one of them.
-/

namespace Calculator

/-- The error, where there is one. -/
def errorOf? {α : Type} : Except Error α → Option Error
  | .ok _ => none
  | .error e => some e

/-- The cause lies in a character or a literal that makes no token. -/
def Cause.isLexical : Cause → Bool
  | invalidCharacter _ | literalTooLarge => true
  | _ => false

/-- The error, where there is one and it comes of a read. -/
def lexicalError? {α : Type} (outcome : Except Error α) : Option Error :=
  (errorOf? outcome).filter fun e => e.cause.isLexical

/-- From one reader to the other by reading on, `given` being what the reads gave. -/
inductive Reader.Steps : Reader → List (Except Error Token) → Reader → Prop where
  | refl (r : Reader) : Steps r [] r
  | step {r r' : Reader} {given : List (Except Error Token)} :
      Steps r.advance.2 given r' → Steps r (r.cursor.read.1 :: given) r'

/-- From one reader to the other by reading on, the outcome being what there is to report. -/
def Reader.ReadsOn {α : Type} (r : Reader) (outcome : Except Error α) (r' : Reader) : Prop :=
  ∃ given, r.Steps given r' ∧ given.filterMap errorOf? = (lexicalError? outcome).toList

/-- The rule does nothing else with a reader. -/
def Rule.ReadsOn (rule : Rule) : Prop :=
  ∀ {r r' : Reader} {outcome : Except Error Value}, rule.run r = (outcome, r') →
    r.ReadsOn outcome r'

/-! ## Reading on -/

/-- Errors of reads lie in the text. -/
theorem Span.isLexical_of_outcome {sp : Span} {e : Error} (h : sp.outcome = .error e) :
    e.cause.isLexical := by
  obtain ⟨cause, hcause, rfl⟩ := outcome_eq_error_iff.mp h
  rcases reading_eq_error hcause with rfl | ⟨c, rest, _, rfl⟩ <;> rfl

theorem Cursor.lexicalError?_read (c : Cursor) : lexicalError? c.read.1 = errorOf? c.read.1 := by
  rw [← c.outcome_span_read]
  cases houtcome : c.read.2.span.outcome with
  | ok t => rfl
  | error e => exact Option.filter_some_pos (Span.isLexical_of_outcome houtcome)

namespace Reader

theorem Steps.trans {r r₁ r₂ : Reader} {given given' : List (Except Error Token)}
    (h : r.Steps given r₁) (h' : r₁.Steps given' r₂) : r.Steps (given ++ given') r₂ := by
  induction h with
  | refl => exact h'
  | step _ ih => exact .step (ih h')

theorem cursor_advance (r : Reader) : r.advance.2.cursor = r.cursor.read.2 := by
  unfold advance
  rcases r.cursor.read with ⟨_ | _, c⟩ <;> rfl

theorem errorOf?_advance (r : Reader) : errorOf? r.advance.1 = errorOf? r.cursor.read.1 := by
  unfold advance
  rcases r.cursor.read with ⟨_ | _, c⟩ <;> rfl

theorem readsOn_advance {r r' : Reader} {outcome : Except Error Unit}
    (h : r.advance = (outcome, r')) : r.ReadsOn outcome r' := by
  have hlexical := r.cursor.lexicalError?_read
  have herror := r.errorOf?_advance
  rw [h] at herror
  refine ⟨[r.cursor.read.1], ?_, ?_⟩
  · have hstep := Steps.step (.refl r.advance.2)
    rw [h] at hstep
    exact hstep
  · rw [lexicalError?, herror, ← lexicalError?, hlexical, List.filterMap_cons]
    cases errorOf? r.cursor.read.1 <;> rfl

theorem readsOn_consume (r : Reader) (expected : Token) :
    r.ReadsOn (r.consume expected).1 (r.consume expected).2 := by
  unfold consume
  split
  · exact readsOn_advance rfl
  · exact ⟨[], .refl r, rfl⟩

end Reader

/-! ## The rules -/

/-- The relation holds of every single read in front of the end, and of one stretch of reading
after the other as long as there is nothing to report. -/
structure Reader.Traces (R : Reader → Option Error → Reader → Prop) : Prop where
  refl : ∀ r, R r none r
  advance : ∀ {r r' : Reader} {outcome : Except Error Unit}, r.current ≠ .endOfInput →
    r.advance = (outcome, r') → R r (lexicalError? outcome) r'
  trans : ∀ {r r₁ r₂ : Reader} {e : Option Error}, R r none r₁ → R r₁ e r₂ → R r e r₂

/-- The relation holds of all that the rule does. -/
def Rule.Keeps (rule : Rule) (R : Reader → Option Error → Reader → Prop) : Prop :=
  ∀ {r r' : Reader} {outcome : Except Error Value}, rule.run r = (outcome, r') →
    R r (lexicalError? outcome) r'

namespace Rule

section

variable {R : Reader → Option Error → Reader → Prop}

theorem signed_keeps (hR : Reader.Traces R) {sign : Sign} {r r' : Reader}
    {outcome : Except Error Value} (h : signed sign r = (outcome, r')) :
    R r (lexicalError? outcome) r' := by
  revert h
  fun_induction signed sign r with
  | case1 sign r next hs r₁ ha ih =>
      exact fun h => hR.trans (hR.advance (Reader.ne_endOfInput_of_sign? hs) ha) (ih h)
  | case2 sign r next hs e r₁ ha =>
      intro h
      cases h
      exact hR.advance (Reader.ne_endOfInput_of_sign? hs) ha
  | case3 sign r hs value hc r₁ ha =>
      intro h
      cases h
      exact hR.advance (Reader.ne_endOfInput_of_number hc) ha
  | case4 sign r hs value hc e r₁ ha =>
      intro h
      cases h
      exact hR.advance (Reader.ne_endOfInput_of_number hc) ha
  | case5 sign r hs hc =>
      intro h
      cases h
      exact hR.refl _

theorem factor_keeps (hR : Reader.Traces R) : factor.Keeps R := signed_keeps hR

/-- An operation that fails has nothing to do with the text. -/
theorem lexicalError?_applyAt {op : Operator} {position : Nat} {left right : Value} {e : Error}
    (h : op.applyAt position left right = .error e) :
    lexicalError? (.error e : Except Error Value) = none := by
  unfold Operator.applyAt at h
  split at h
  · cases h
  · rename_i cause hcause
    cases h
    rcases Operator.apply_eq_error hcause with rfl | rfl <;> rfl

variable {level : Level} {operand : Rule}

theorem joinFrom_keeps (hR : Reader.Traces R) (hx : operand.Keeps R) {left : Value}
    {r r' : Reader} {outcome : Except Error Value}
    (h : joinFrom level operand left r = (outcome, r')) : R r (lexicalError? outcome) r' := by
  revert h
  fun_induction joinFrom level operand left r with
  | case1 left r ho =>
      intro h
      cases h
      exact hR.refl _
  | case2 left r op ho e r₁ ha =>
      intro h
      cases h
      exact hR.advance (Reader.ne_endOfInput_of_operator? ho) ha
  | case3 left r op ho r₁ ha e r₂ hop =>
      intro h
      cases h
      exact hR.trans (hR.advance (Reader.ne_endOfInput_of_operator? ho) ha) (hx hop)
  | case4 left r op ho r₁ ha right r₂ hop e he =>
      intro h
      cases h
      rw [lexicalError?_applyAt he]
      exact hR.trans (hR.advance (Reader.ne_endOfInput_of_operator? ho) ha) (hx hop)
  | case5 left r op ho r₁ ha right r₂ hop value hv ih =>
      intro h
      have hadvance := hR.advance (Reader.ne_endOfInput_of_operator? ho) ha
      exact hR.trans hadvance (hR.trans (hx hop) (ih h))

/-- **What the operands of a chain do, the chain does.** -/
theorem chain_keeps (hR : Reader.Traces R) (hx : operand.Keeps R) :
    (chain level operand).Keeps R := by
  intro r r' outcome h
  rw [chain] at h
  dsimp only at h
  split at h
  · rename_i hop
    cases h
    exact hx hop
  · rename_i hop
    exact hR.trans (hx hop) (joinFrom_keeps hR hx h)

theorem term_keeps (hR : Reader.Traces R) : term.Keeps R := chain_keeps hR (factor_keeps hR)

theorem expression_keeps (hR : Reader.Traces R) : expression.Keeps R :=
  chain_keeps hR (term_keeps hR)

end

/-- What goes well leaves nothing to report, so one may go on from there. -/
theorem traces_readsOn : Reader.Traces fun r e r' =>
    ∃ given, r.Steps given r' ∧ given.filterMap errorOf? = e.toList where
  refl r := ⟨[], .refl r, rfl⟩
  advance _ h := Reader.readsOn_advance h
  trans h h' := by
    obtain ⟨given, hsteps, hnone⟩ := h
    obtain ⟨given', hsteps', herrors⟩ := h'
    refine ⟨given ++ given', hsteps.trans hsteps', ?_⟩
    rw [List.filterMap_append, hnone, herrors]
    rfl

theorem factor_readsOn : factor.ReadsOn := factor_keeps traces_readsOn

theorem term_readsOn : term.ReadsOn := term_keeps traces_readsOn

theorem expression_readsOn : expression.ReadsOn := expression_keeps traces_readsOn

end Rule

end Calculator
