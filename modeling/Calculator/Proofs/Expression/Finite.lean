import Calculator.Expression.Rule
import Calculator.Proofs.Value.Finite

/-!
# What a reader gives is finite

A reader has its numbers from the text, so the one that it looks at is no negative integer
and no real below 2^63, whatever has been done with it before. This is all that has to be
kept: **every rule keeps it**, gives a finite value if it gives one, and puts nothing but
what was looked at into an error. It does not matter whether an earlier call went well.
-/

namespace Calculator

/-- The token that an error was found at, where it names one. -/
def Cause.found? : Cause → Option Token
  | unexpectedToken _ found => some found
  | unexpectedTokenInFactor found => some found
  | trailingInput found => some found
  | _ => none

/-- If the token is a number, it is what a run of digits can be read as. -/
def Token.IsLexed : Token → Prop
  | number v => v.IsLexed
  | _ => True

/-- If the error was found at a number, it is what a run of digits can be read as. -/
def Error.IsLexed (e : Error) : Prop := ∀ t, e.cause.found? = some t → t.IsLexed

/-- The result is as `P` says, or else an error with nothing in it that was not read. -/
def Sound {α : Type} (P : α → Prop) : Except Error α → Prop
  | .ok a => P a
  | .error e => e.IsLexed

theorem Error.isLexed_of_found?_eq_none {cause : Cause} (h : cause.found? = none)
    (position : Nat) : Error.IsLexed ⟨cause, position⟩ := by
  intro t ht
  cases h.symm.trans ht

theorem Error.isLexed_of_found? {cause : Cause} {found : Token} (h : cause.found? = some found)
    (hfound : found.IsLexed) (position : Nat) : Error.IsLexed ⟨cause, position⟩ := by
  intro t ht
  cases h.symm.trans ht
  exact hfound

/-! ## Reading on -/

theorem found?_of_reading_eq_error {text : List Char} {cause : Cause}
    (h : reading text = .error cause) : cause.found? = none := by
  rcases reading_eq_error h with rfl | ⟨c, rest, _, rfl⟩ <;> rfl

/-- **What stands at a span.** -/
theorem Span.sound_outcome (sp : Span) : Sound Token.IsLexed sp.outcome := by
  cases h : sp.outcome with
  | ok t =>
      cases t with
      | number v =>
          rw [outcome_eq_ok_iff] at h
          cases htext : sp.text with
          | nil => rw [htext] at h; cases h
          | cons c rest =>
              rw [htext, reading] at h
              split at h
              · exact isLexed_of_literal h
              · -- a single character is no number
                split at h
                · rename_i hc
                  cases h
                  cases ofChar?_eq_some hc with
                  | number hd hl => exact isLexed_of_literal hl
                · cases h
      | _ => trivial
  | error e =>
      obtain ⟨cause, hcause, rfl⟩ := outcome_eq_error_iff.mp h
      exact Error.isLexed_of_found?_eq_none (found?_of_reading_eq_error hcause) _

theorem Cursor.sound_read (c : Cursor) : Sound Token.IsLexed c.read.1 :=
  c.outcome_span_read ▸ Span.sound_outcome _

namespace Reader

theorem sound_advance {r r' : Reader} {outcome : Except Error Unit} (hr : r.current.IsLexed)
    (h : r.advance = (outcome, r')) : Sound (fun _ => True) outcome ∧ r'.current.IsLexed := by
  have hread := r.cursor.sound_read
  unfold advance at h
  split at h
  · rename_i t c heq
    cases h
    rw [heq] at hread
    exact ⟨trivial, hread⟩
  · rename_i e c heq
    cases h
    rw [heq] at hread
    exact ⟨hread, hr⟩

theorem sound_consume {r r' : Reader} {expected : Token} {outcome : Except Error Unit}
    (hr : r.current.IsLexed) (h : r.consume expected = (outcome, r')) :
    Sound (fun _ => True) outcome ∧ r'.current.IsLexed := by
  unfold consume at h
  split at h
  · exact sound_advance hr h
  · cases h
    exact ⟨Error.isLexed_of_found? rfl hr _, hr⟩

theorem sound_ofCursor (c : Cursor) : Sound (fun r => r.current.IsLexed) (ofCursor c) := by
  have hread := c.sound_read
  unfold ofCursor
  split
  · rename_i t c' heq
    rw [heq] at hread
    exact hread
  · rename_i e c' heq
    rw [heq] at hread
    exact hread

end Reader

/-! ## The rules -/

namespace Rule

/-- The rule gives finite values, and what is looked at behind it has been read. -/
def GivesFinite (rule : Rule) : Prop :=
  ∀ {r r' : Reader} {outcome : Except Error Value}, r.current.IsLexed →
    rule.run r = (outcome, r') → Sound Value.IsFinite outcome ∧ r'.current.IsLexed

theorem signed_sound {sign : Sign} {r r' : Reader} {outcome : Except Error Value}
    (hr : r.current.IsLexed) (h : signed sign r = (outcome, r')) :
    Sound Value.IsFinite outcome ∧ r'.current.IsLexed := by
  revert hr h
  fun_induction signed sign r with
  | case1 sign r next hs r₁ ha ih =>
      intro hr h
      exact ih (Reader.sound_advance hr ha).2 h
  | case2 sign r next hs e r₁ ha =>
      intro hr h
      cases h
      exact Reader.sound_advance hr ha
  | case3 sign r hs value hc r₁ ha =>
      intro hr h
      cases h
      have hvalue : value.IsLexed := by
        rw [hc] at hr
        exact hr
      exact ⟨sign.isFinite_applyToLiteral _ hvalue.isFinite, (Reader.sound_advance hr ha).2⟩
  | case4 sign r hs value hc e r₁ ha =>
      intro hr h
      cases h
      exact Reader.sound_advance hr ha
  | case5 sign r hs hc =>
      intro hr h
      cases h
      exact ⟨Error.isLexed_of_found? rfl hr _, hr⟩

theorem factor_givesFinite : factor.GivesFinite := signed_sound

section

variable {level : Level} {operand : Rule}

theorem applyAt_sound (op : Operator) (position : Nat) (left right : Value) :
    Sound Value.IsFinite (op.applyAt position left right) := by
  unfold Operator.applyAt
  cases h : op.apply left right with
  | ok v => exact Operator.isFinite_apply h
  | error cause =>
      rcases Operator.apply_eq_error h with rfl | rfl
      · exact Error.isLexed_of_found?_eq_none rfl _
      · exact Error.isLexed_of_found?_eq_none rfl _

theorem joinFrom_sound (hx : operand.GivesFinite) {left : Value} {r r' : Reader}
    {outcome : Except Error Value} (hleft : left.IsFinite) (hr : r.current.IsLexed)
    (h : joinFrom level operand left r = (outcome, r')) :
    Sound Value.IsFinite outcome ∧ r'.current.IsLexed := by
  revert hleft hr h
  fun_induction joinFrom level operand left r with
  | case1 left r ho =>
      intro hleft hr h
      cases h
      exact ⟨hleft, hr⟩
  | case2 left r op ho e r₁ ha =>
      intro _ hr h
      cases h
      exact Reader.sound_advance hr ha
  | case3 left r op ho r₁ ha e r₂ hrun =>
      intro _ hr h
      cases h
      exact hx (Reader.sound_advance hr ha).2 hrun
  | case4 left r op ho r₁ ha right r₂ hrun e he =>
      intro _ hr h
      cases h
      refine ⟨?_, (hx (Reader.sound_advance hr ha).2 hrun).2⟩
      have hsound := applyAt_sound op r₁.span.start left right
      rw [he] at hsound
      exact hsound
  | case5 left r op ho r₁ ha right r₂ hrun value hv ih =>
      intro _ hr h
      have hsound := applyAt_sound op r₁.span.start left right
      rw [hv] at hsound
      exact ih hsound (hx (Reader.sound_advance hr ha).2 hrun).2 h

/-- **Chains give finite values if their operands do.** -/
theorem chain_givesFinite (hx : operand.GivesFinite) : (chain level operand).GivesFinite := by
  intro r r' outcome hr h
  rw [chain] at h
  dsimp only at h
  split at h
  · rename_i e r₁ hrun
    cases h
    exact hx hr hrun
  · rename_i first r₁ hrun
    obtain ⟨hfirst, hr₁⟩ := hx hr hrun
    exact joinFrom_sound hx hfirst hr₁ h

end

theorem term_givesFinite : term.GivesFinite := chain_givesFinite factor_givesFinite

theorem expression_givesFinite : expression.GivesFinite := chain_givesFinite term_givesFinite

end Rule

theorem Reader.sound_whole {r : Reader} (hr : r.current.IsLexed) :
    Sound Value.IsFinite r.whole := by
  unfold whole
  split
  · rename_i e r' hrun
    exact (Rule.expression_givesFinite hr hrun).1
  · rename_i v r' hrun
    obtain ⟨hv, hr'⟩ := Rule.expression_givesFinite hr hrun
    split
    · exact hv
    · exact Error.isLexed_of_found? rfl hr' _

end Calculator
