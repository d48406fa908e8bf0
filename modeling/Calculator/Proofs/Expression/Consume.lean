import Mathlib.Data.List.Forall2
import Calculator.Proofs.Expression.Advance
import Calculator.Proofs.Expression.Items

/-!
# What a rule consumes

A rule looks at one token at a time and reads past it once it has taken it in. Those tokens,
in order, are what the rule *consumes*, and `Reader.Consumes` is the log of them. **A rule that
does not come upon something that cannot be read has done nothing but consume**: where it ends,
with a value or with an error, the reader looks at the token behind the last one consumed.

The log is what the lemmas about rules call `read`, the spans that were passed, together with
the tokens that stood there.
-/

namespace Calculator

/-- The tokens that were looked at and read past, each with its span. -/
abbrev Looks := List (Token × Span)

namespace Looks

def tokens (w : Looks) : List Token := w.map Prod.fst

def spans (w : Looks) : List Span := w.map Prod.snd

def texts (w : Looks) : List (List Char) := w.spans.map Span.text

end Looks

namespace Reader

/-- From one reader to the other by reading past the tokens of `w`. -/
inductive Consumes : Reader → Looks → Reader → Prop where
  | refl (r : Reader) : Consumes r [] r
  | step {r r₁ r' : Reader} {w : Looks} : r.current ≠ .endOfInput →
      r.advance = (.ok (), r₁) → Consumes r₁ w r' → Consumes r ((r.current, r.span) :: w) r'

theorem Consumes.single {r r' : Reader} (hc : r.current ≠ .endOfInput)
    (h : r.advance = (.ok (), r')) : r.Consumes [(r.current, r.span)] r' :=
  .step hc h (.refl r')

theorem Consumes.trans {r r₁ r₂ : Reader} {w w' : Looks} (h : r.Consumes w r₁)
    (h' : r₁.Consumes w' r₂) : r.Consumes (w ++ w') r₂ := by
  induction h with
  | refl => exact h'
  | step hc ha _ ih => exact .step hc ha (ih h')

/-- **What is consumed stood in front**, and each of its tokens at its span. -/
theorem Consumes.passes {r r' : Reader} {w : Looks} (h : r.Consumes w r') (hr : r.Faithful) :
    r.Passes r' w.spans ∧ List.Forall₂ Spells w.texts w.tokens := by
  induction h with
  | refl r => exact ⟨.refl hr, .nil⟩
  | step hc ha _ ih =>
      have hpass := advance_passes hr hc ha
      obtain ⟨hrest, hspells⟩ := ih hpass.faithful
      exact ⟨hpass.trans hrest, .cons hr.spells hspells⟩

/-- There is one stretch only that leads from one reader to another. -/
theorem Consumes.spans_eq {r r' : Reader} {w : Looks} {read : List Span} (h : r.Consumes w r')
    (hr : r.Faithful) (hread : r.Passes r' read) : w.spans = read :=
  List.append_cancel_right ((h.passes hr).1.items_eq.symm.trans hread.items_eq)

/-- What stops at a token that is looked at has passed all in front of it. -/
theorem Halts.passes {r r' : Reader} {read : List Span} {bad : Span} (h : r.Halts r' read bad)
    (hbad : bad.Reads) : r.Passes r' read ∧ r'.span = bad := by
  obtain ⟨rest, hitems, hlook⟩ := h.items_eq
  have hrest := hlook hbad
  exact ⟨⟨h.faithful, by rw [hitems, hrest], h.reads⟩, (List.cons.inj hrest).1⟩

/-- What cannot be read is reported. -/
theorem lexicalError?_of_advance {r r' : Reader} {e : Error} (h : r.advance = (.error e, r')) :
    lexicalError? (.error e : Except Error Value) = some e := by
  have hadvance := r.errorOf?_advance
  have hread := r.cursor.lexicalError?_read
  rw [h] at hadvance
  rw [lexicalError?, ← hadvance] at hread
  exact hread

end Reader

/-! ## The rules -/

/-- Unless it reports something that cannot be read, the rule does nothing but consume. -/
def Rule.OnlyConsumes (rule : Rule) : Prop :=
  ∀ {r r' : Reader} {outcome : Except Error Value}, rule.run r = (outcome, r') →
    lexicalError? outcome = none → ∃ w, r.Consumes w r'

namespace Rule

/-- Reading past a token consumes it, and what has been consumed stays consumed. -/
theorem traces_consumes :
    Reader.Traces fun r e r' => e = none → ∃ w, r.Consumes w r' where
  refl r _ := ⟨[], .refl r⟩
  advance := by
    intro r r' outcome hc h hnone
    cases outcome with
    | ok u => exact ⟨_, .single hc h⟩
    | error e => cases hnone.symm.trans (Reader.lexicalError?_of_advance h)
  trans h h' hnone := by
    obtain ⟨w, hw⟩ := h rfl
    obtain ⟨w', hw'⟩ := h' hnone
    exact ⟨w ++ w', hw.trans hw'⟩

theorem factor_onlyConsumes : factor.OnlyConsumes := factor_keeps traces_consumes

theorem term_onlyConsumes : term.OnlyConsumes := term_keeps traces_consumes

theorem expression_onlyConsumes : expression.OnlyConsumes := expression_keeps traces_consumes

end Rule

end Calculator
