import Mathlib.Data.List.Forall2
import Calculator.Evaluate

/-!
# Readers in step

A reader never looks at where a span stands. It takes over the place of a span into an
error, and that is all. Of the text of a span it wants to know what it reads as, and of a
literal what it reads as behind a minus sign. So two readers whose spans **read alike**,
one in the places of the other moved by some function, go through their sources in step:
they give the same values and the same errors, those of the one in the places of the
other moved by that function.

`Reader.InStep` is the relation between the two, and every operation keeps it. What `f`
does to a place does not matter: it need not even keep the order. The walk through the rules is
made for any relation that reading on in front of the end keeps (`Reader.Simulation`), since
that is all the rules do.
-/

namespace Calculator

/-- The same cause in another place. -/
def Error.moved (f : Nat → Nat) (e : Error) : Error := ⟨e.cause, f e.position⟩

/-- Both texts read alike, also behind a minus sign. -/
structure Span.Alike (f : Nat → Nat) (sp sp' : Span) : Prop where
  start_eq : sp'.start = f sp.start
  reading_eq : reading sp'.text = reading sp.text
  negated_eq : Decimal.negatedInteger? sp'.text = Decimal.negatedInteger? sp.text

/-- Cursors that are in step. -/
structure Cursor.InStep (f : Nat → Nat) (c c' : Cursor) : Prop where
  pending : List.Forall₂ (Span.Alike f) c.pending c'.pending
  size_eq : c'.size = f c.size

/-- Readers that are in step. -/
structure Reader.InStep (f : Nat → Nat) (r r' : Reader) : Prop where
  cursor : Cursor.InStep f r.cursor r'.cursor
  current_eq : r'.current = r.current
  span : Span.Alike f r.span r'.span

/--
What is looked at is the same, its spans read alike, and reading on in front of the end gives the
same and keeps it so.
-/
structure Reader.Simulation (f : Nat → Nat) (S : Reader → Reader → Prop) : Prop where
  current_eq : ∀ {r r' : Reader}, S r r' → r'.current = r.current
  span : ∀ {r r' : Reader}, S r r' → r.span.Alike f r'.span
  advance : ∀ {r r' r₁ : Reader} {outcome : Except Error Unit}, S r r' →
    r.current ≠ .endOfInput → r.advance = (outcome, r₁) →
    ∃ r₁', r'.advance = (outcome.mapError (Error.moved f), r₁') ∧ S r₁ r₁'

/-- The rule gives the same outcomes on readers that are related, and keeps them so. -/
def Rule.Simulated (f : Nat → Nat) (S : Reader → Reader → Prop) (rule : Rule) : Prop :=
  ∀ {r r' r₁ : Reader} {outcome : Except Error Value}, S r r' → rule.run r = (outcome, r₁) →
    ∃ r₁', rule.run r' = (outcome.mapError (Error.moved f), r₁') ∧ S r₁ r₁'

/-- In step, the rule gives the same outcomes and keeps in step. -/
def Rule.KeepsStep (f : Nat → Nat) (rule : Rule) : Prop :=
  ∀ {r r' r₁ : Reader} {outcome : Except Error Value}, r.InStep f r' →
    rule.run r = (outcome, r₁) →
    ∃ r₁', rule.run r' = (outcome.mapError (Error.moved f), r₁') ∧ r₁.InStep f r₁'

section

variable {f : Nat → Nat}

/-! ## Reading on -/

theorem Span.Alike.outcome {sp sp' : Span} (h : sp.Alike f sp') :
    sp'.outcome = sp.outcome.mapError (Error.moved f) := by
  unfold Span.outcome
  rw [h.reading_eq, h.start_eq]
  cases reading sp.text <;> rfl

/-- **Cursors in step read the same**, and what they have read is alike. -/
theorem Cursor.InStep.read {c c' c₁ : Cursor} {outcome : Except Error Token} (h : c.InStep f c')
    (hread : c.read = (outcome, c₁)) :
    ∃ c₁', c'.read = (outcome.mapError (Error.moved f), c₁') ∧ c₁.InStep f c₁'
      ∧ c₁.span.Alike f c₁'.span := by
  obtain ⟨hpending, hsize⟩ := h
  unfold Cursor.read at hread ⊢
  cases hp : c.pending with
  | nil =>
      rw [hp] at hread hpending
      cases hread
      rw [List.forall₂_nil_left_iff.mp hpending]
      exact ⟨_, rfl, ⟨.nil, hsize⟩, hsize, rfl, rfl⟩
  | cons sp pending =>
      rw [hp] at hread hpending
      cases hread
      obtain ⟨sp', pending', hsp, hrest, heq⟩ := List.forall₂_cons_left_iff.mp hpending
      rw [heq]
      exact ⟨_, congrArg (·, _) hsp.outcome, ⟨hrest, hsize⟩, hsp⟩

namespace Reader

theorem advance_of_read_ok {r : Reader} {t : Token} {c : Cursor}
    (h : r.cursor.read = (.ok t, c)) : r.advance = (.ok (), ⟨c, t, c.span⟩) := by
  rw [advance, h]

theorem advance_of_read_error {r : Reader} {e : Error} {c : Cursor}
    (h : r.cursor.read = (.error e, c)) : r.advance = (.error e, { r with cursor := c }) := by
  rw [advance, h]

theorem InStep.advance {r r' r₁ : Reader} {outcome : Except Error Unit} (h : r.InStep f r')
    (ha : r.advance = (outcome, r₁)) :
    ∃ r₁', r'.advance = (outcome.mapError (Error.moved f), r₁') ∧ r₁.InStep f r₁' := by
  cases hread : r.cursor.read with
  | mk out c =>
    obtain ⟨c', hread', hc, hspan⟩ := h.cursor.read hread
    cases out with
    | ok t =>
        rw [advance_of_read_ok hread] at ha
        cases ha
        exact ⟨_, advance_of_read_ok hread', hc, rfl, hspan⟩
    | error e =>
        rw [advance_of_read_error hread] at ha
        cases ha
        exact ⟨_, advance_of_read_error hread', hc, h.current_eq, h.span⟩

/-- Readers in step go on in step, at the end of input as well. -/
theorem simulation_inStep : Simulation f (InStep f) where
  current_eq h := h.current_eq
  span h := h.span
  advance h _ ha := h.advance ha

variable {S : Reader → Reader → Prop}

theorem Simulation.operator? (hS : Simulation f S) {r r' : Reader} (h : S r r') (level : Level) :
    r'.operator? level = r.operator? level := by
  rw [Reader.operator?, Reader.operator?, hS.current_eq h]

end Reader

/-! ## The rules -/

theorem applyAt_moved (op : Operator) (position : Nat) (left right : Value) :
    op.applyAt (f position) left right
      = (op.applyAt position left right).mapError (Error.moved f) := by
  unfold Operator.applyAt
  cases op.apply left right <;> rfl

theorem Span.Alike.applyToLiteral {sp sp' : Span} (h : sp.Alike f sp') (sign : Sign)
    (value : Value) : sign.applyToLiteral sp'.text value = sign.applyToLiteral sp.text value := by
  unfold Sign.applyToLiteral
  rw [h.negated_eq]

namespace Rule

section

variable {S : Reader → Reader → Prop}

/-- Signs and literals are read alike. -/
theorem signed_simulated (hS : Reader.Simulation f S) {sign : Sign} {r r' r₁ : Reader}
    {outcome : Except Error Value} (h : S r r') (hrun : signed sign r = (outcome, r₁)) :
    ∃ r₁', signed sign r' = (outcome.mapError (Error.moved f), r₁') ∧ S r₁ r₁' := by
  revert hrun
  fun_induction signed sign r generalizing r' with
  | case1 sign r next hs r₂ ha ih =>
      intro hrun
      obtain ⟨r₂', ha', h₂⟩ := hS.advance h (Reader.ne_endOfInput_of_sign? hs) ha
      obtain ⟨r₁', hrun', h₁⟩ := ih h₂ hrun
      refine ⟨r₁', ?_, h₁⟩
      rw [signed_eq, hS.current_eq h, hs, ha']
      exact hrun'
  | case2 sign r next hs e r₂ ha =>
      intro hrun
      cases hrun
      obtain ⟨r₂', ha', h₂⟩ := hS.advance h (Reader.ne_endOfInput_of_sign? hs) ha
      refine ⟨r₂', ?_, h₂⟩
      rw [signed_eq, hS.current_eq h, hs, ha']
      rfl
  | case3 sign r hs value hc r₂ ha =>
      intro hrun
      cases hrun
      obtain ⟨r₂', ha', h₂⟩ := hS.advance h (Reader.ne_endOfInput_of_number hc) ha
      refine ⟨r₂', ?_, h₂⟩
      rw [signed_eq, hS.current_eq h, hs, hc, ha']
      simp only [Except.mapError, (hS.span h).applyToLiteral]
  | case4 sign r hs value hc e r₂ ha =>
      intro hrun
      cases hrun
      obtain ⟨r₂', ha', h₂⟩ := hS.advance h (Reader.ne_endOfInput_of_number hc) ha
      refine ⟨r₂', ?_, h₂⟩
      rw [signed_eq, hS.current_eq h, hs, hc, ha']
      rfl
  | case5 sign r hs hc =>
      intro hrun
      cases hrun
      refine ⟨r', ?_, h⟩
      rw [signed_eq, hS.current_eq h, hs, (hS.span h).start_eq]
      cases hcur : r₁.current with
      | number v => exact absurd hcur (hc v)
      | _ => rfl

theorem factor_simulated (hS : Reader.Simulation f S) : factor.Simulated f S :=
  signed_simulated hS

variable {level : Level} {operand : Rule}

/-- If the operands are read alike, the loop is. -/
theorem joinFrom_simulated (hS : Reader.Simulation f S) (hx : operand.Simulated f S)
    {left : Value} {r r' r₁ : Reader} {outcome : Except Error Value} (h : S r r')
    (hrun : joinFrom level operand left r = (outcome, r₁)) :
    ∃ r₁', joinFrom level operand left r' = (outcome.mapError (Error.moved f), r₁')
      ∧ S r₁ r₁' := by
  revert hrun
  fun_induction joinFrom level operand left r generalizing r' with
  | case1 left r ho =>
      intro hrun
      cases hrun
      refine ⟨r', ?_, h⟩
      rw [joinFrom_eq, hS.operator? h, ho]
      rfl
  | case2 left r op ho e r₂ ha =>
      intro hrun
      cases hrun
      obtain ⟨r₂', ha', h₂⟩ := hS.advance h (Reader.ne_endOfInput_of_operator? ho) ha
      refine ⟨r₂', ?_, h₂⟩
      rw [joinFrom_eq, hS.operator? h, ho, ha']
      rfl
  | case3 left r op ho r₂ ha e r₃ hop =>
      intro hrun
      cases hrun
      obtain ⟨r₂', ha', h₂⟩ := hS.advance h (Reader.ne_endOfInput_of_operator? ho) ha
      obtain ⟨r₃', hop', h₃⟩ := hx h₂ hop
      refine ⟨r₃', ?_, h₃⟩
      rw [joinFrom_eq, hS.operator? h, ho, ha']
      simp only [Except.mapError, hop']
  | case4 left r op ho r₂ ha right r₃ hop e he =>
      intro hrun
      cases hrun
      obtain ⟨r₂', ha', h₂⟩ := hS.advance h (Reader.ne_endOfInput_of_operator? ho) ha
      obtain ⟨r₃', hop', h₃⟩ := hx h₂ hop
      refine ⟨r₃', ?_, h₃⟩
      rw [joinFrom_eq, hS.operator? h, ho, ha']
      simp only [Except.mapError, hop', (hS.span h₂).start_eq, applyAt_moved, he]
  | case5 left r op ho r₂ ha right r₃ hop value hv ih =>
      intro hrun
      obtain ⟨r₂', ha', h₂⟩ := hS.advance h (Reader.ne_endOfInput_of_operator? ho) ha
      obtain ⟨r₃', hop', h₃⟩ := hx h₂ hop
      obtain ⟨r₁', hrun', h₁⟩ := ih h₃ hrun
      refine ⟨r₁', ?_, h₁⟩
      rw [joinFrom_eq, hS.operator? h, ho, ha']
      simp only [Except.mapError, hop', (hS.span h₂).start_eq, applyAt_moved, hv]
      exact hrun'

/-- **Chains are read alike if their operands are.** -/
theorem chain_simulated (hS : Reader.Simulation f S) (hx : operand.Simulated f S) :
    (chain level operand).Simulated f S := by
  intro r r' r₁ outcome h hrun
  rw [chain] at hrun ⊢
  dsimp only at hrun ⊢
  cases hop : operand.run r with
  | mk out r₂ =>
    obtain ⟨r₂', hop', h₂⟩ := hx h hop
    rw [hop] at hrun
    cases out with
    | error e =>
        cases hrun
        exact ⟨r₂', by rw [hop']; rfl, h₂⟩
    | ok first =>
        obtain ⟨r₁', hrun', h₁⟩ := joinFrom_simulated hS hx h₂ hrun
        exact ⟨r₁', by rw [hop']; exact hrun', h₁⟩

theorem term_simulated (hS : Reader.Simulation f S) : term.Simulated f S :=
  chain_simulated hS (factor_simulated hS)

theorem expression_simulated (hS : Reader.Simulation f S) : expression.Simulated f S :=
  chain_simulated hS (term_simulated hS)

end

theorem factor_keepsStep : factor.KeepsStep f := factor_simulated Reader.simulation_inStep

theorem term_keepsStep : term.KeepsStep f := term_simulated Reader.simulation_inStep

theorem expression_keepsStep : expression.KeepsStep f :=
  expression_simulated Reader.simulation_inStep

end Rule

/-! ## The evaluation -/

namespace Reader

theorem InStep.whole {r r' : Reader} (h : r.InStep f r') :
    r'.whole = r.whole.mapError (Error.moved f) := by
  unfold Reader.whole
  cases hrun : Rule.expression.run r with
  | mk out r₁ =>
    obtain ⟨r₁', hrun', h₁⟩ := Rule.expression_keepsStep h hrun
    rw [hrun']
    cases out with
    | error e => rfl
    | ok value =>
        dsimp only [Except.mapError]
        rw [h₁.current_eq, h₁.span.start_eq]
        cases r₁.current <;> rfl

/-- Readers of cursors in step begin in step. -/
theorem ofCursor_inStep {c c' : Cursor} (h : c.InStep f c') :
    (∃ r r', ofCursor c = .ok r ∧ ofCursor c' = .ok r' ∧ r.InStep f r')
      ∨ ∃ e, ofCursor c = .error e ∧ ofCursor c' = .error (e.moved f) := by
  cases hread : c.read with
  | mk out c₁ =>
    obtain ⟨c₁', hread', h₁, hspan⟩ := h.read hread
    unfold ofCursor
    rw [hread, hread']
    cases out with
    | ok t => exact .inl ⟨_, _, rfl, rfl, h₁, rfl, hspan⟩
    | error e => exact .inr ⟨e, rfl, rfl⟩

end Reader

/-- **Sources in step evaluate to the same**, errors being moved. -/
theorem evaluate_inStep {source source' : String}
    (h : (Cursor.ofSource source).InStep f (Cursor.ofSource source')) :
    evaluate source' = (evaluate source).mapError (Error.moved f) := by
  unfold evaluate Reader.ofSource
  rcases Reader.ofCursor_inStep h with ⟨r, r', hr, hr', hstep⟩ | ⟨e, he, he'⟩
  · rw [hr, hr']
    exact hstep.whole
  · rw [he, he']
    rfl

/-! ## The tokens, and checking -/

/-- Spans that read alike are the same tokens, or the same error. -/
theorem mapM_outcome_alike {sps sps' : List Span} (h : List.Forall₂ (Span.Alike f) sps sps') :
    sps'.mapM Span.outcome = (sps.mapM Span.outcome).mapError (Error.moved f) := by
  induction h with
  | nil => rfl
  | @cons sp sp' sps sps' hsp _ ih =>
      rw [List.mapM_cons, List.mapM_cons, hsp.outcome, ih]
      cases sp.outcome with
      | error e => rfl
      | ok t => cases sps.mapM Span.outcome <;> rfl

theorem tokenize_inStep {source source' : String}
    (h : (Cursor.ofSource source).InStep f (Cursor.ofSource source')) :
    tokenize source' = (tokenize source).mapError (Error.moved f) :=
  mapM_outcome_alike h.pending

theorem check_inStep {source source' : String}
    (h : (Cursor.ofSource source).InStep f (Cursor.ofSource source')) :
    check source' = (check source).mapError (Error.moved f) := by
  unfold check
  rw [evaluate_inStep h]
  cases evaluate source <;> rfl

end

end Calculator
