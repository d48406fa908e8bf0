import Calculator.Proofs.Evaluate.Meaning
import Calculator.Proofs.Source.Cut

/-!
# Where an error points

The position of an error cuts the source in two, and `Cause.PointsBetween` says for each
cause what stands on either side. An invalid character, a number that is too large and a
token that cannot stand where it does are what **the back starts with**. A failed
operation is cut between its operator and its right operand, so there **the front ends
with the operator** and the back starts with the operand, at its first sign if it has one.

Whatever the cause, the front reads as tokens: no error lies in front of another one.
-/

namespace Calculator

/-- Behind the cut come these words and then those, and the first starts right at the cut. -/
structure WordsBehind (front back : String) (ws more : List (List Char)) : Prop where
  words_eq : (spansFrom front.utf8ByteSize back.toList).map Span.text = ws ++ more
  start_eq : ∀ sp ∈ (spansFrom front.utf8ByteSize back.toList).head?,
    sp.start = front.utf8ByteSize

/--
An operation fails, with its operator as the last word of the front and its right operand
as what the back starts with.
-/
inductive FailsAcross (front back : String) (cause : Cause) : Prop where
  | product {e : Expression} {f : Factor} {l r : Value} {more : List (List Char)}
      (op : { op : Operator // op.level = .multiplicative }) :
      (spans front).map Span.text = e.words ++ [op.1.text.toList] →
      WordsBehind front back f.words more →
      e.last.value = .ok l → f.value = .ok r → op.1.apply l r = .error cause →
      FailsAcross front back cause
  | sum {e : Expression} {t : Term} {l r : Value} {more : List (List Char)}
      (op : { op : Operator // op.level = .additive }) :
      (spans front).map Span.text = e.words ++ [op.1.text.toList] →
      WordsBehind front back t.words more → EndsChain .multiplicative more →
      e.value = .ok l → t.value = .ok r → op.1.apply l r = .error cause →
      FailsAcross front back cause

/-- What stands in front of a place and behind it when an error with this cause points there. -/
def Cause.PointsBetween (front back : String) : Cause → Prop
  | unexpectedToken _ _ => False
  | invalidCharacter c =>
    back.toList.head? = some c ∧ isBlank c = false ∧ c.isDigit = false ∧ c ∉ ['+', '-', '*', '/']
  | literalTooLarge =>
    ∃ digits rest, back.toList = digits ++ rest ∧ MaximalRun front.toList digits rest
      ∧ literal digits = .error .literalTooLarge
  | trailingInput found =>
    (∃ digits rest v, back.toList = digits ++ rest ∧ MaximalRun front.toList digits rest
      ∧ literal digits = .ok found ∧ found = .number v)
      ∧ ∃ e : Expression, (spans front).map Span.text = e.words
  | unexpectedTokenInFactor found =>
    found ∈ [.star, .slash, .endOfInput] ∧ (found = .endOfInput ↔ back = "")
      ∧ (∃ text rest, back.toList = text ++ rest ∧ Spells text found)
      ∧ (∃ e : Expression, (spans front).map Span.text <+: e.words)
      ∧ (spans front = [] ∨ ∃ (as : List (List Char)) (op : Operator),
        (spans front).map Span.text = as ++ [op.text.toList])
  | divisionByZero => FailsAcross front back .divisionByZero
  | overflow => FailsAcross front back .overflow

/-! ## What cannot be read -/

/-- Only the end of input is spelled by nothing. -/
theorem Spells.eq_nil_iff {text : List Char} {t : Token} (h : Spells text t) :
    text = [] ↔ t = .endOfInput := by
  cases h with
  | number hd _ => exact ⟨fun hnil => absurd hnil hd.ne_nil, fun ht => by cases ht⟩
  | endOfInput => simp
  | _ => simp

section Cut

variable {source front back : String} {before rest : List Span} {bad : Span}

/-- **An item that cannot be read** is what the back starts with. -/
theorem CutAt.points_unreadable (hcut : CutAt source before bad rest front back) {cause : Cause}
    (hlexeme : bad.text = [] ∨ Lexeme bad.text) (hbad : reading bad.text = .error cause) :
    cause.PointsBetween front back := by
  obtain ⟨more, hback, hrun⟩ := hcut.text_eq
  rcases hlexeme with hempty | hlexeme
  · rw [hempty] at hbad
    cases hbad
  · generalize bad.text = text at hlexeme hbad hback hrun
    cases hlexeme with
    | digits hd =>
        rw [hd.reading] at hbad
        cases literal_eq_error hbad
        exact ⟨_, more, hback, hrun hd, hbad⟩
    | @other c hb hd =>
        obtain ⟨rfl, hc⟩ := reading_single_error hd hbad
        exact ⟨by rw [hback]; rfl, hb, hd, not_mem_of_ofChar? hc⟩

/-! ## What has no place -/

theorem Token.mem_of_not_operand {t : Token} (hnosign : t.sign? = none)
    (hnonumber : t.value? = none) : t ∈ [star, slash, endOfInput] := by
  cases t with
  | number v => cases hnonumber
  | plus => cases hnosign
  | minus => cases hnosign
  | _ => simp

/-- **A token that is no operand** is what the back starts with. -/
theorem CutAt.points_missing (hcut : CutAt source before bad rest front back) {found : Token}
    (hbad : Spells bad.text found) (hawaits : Awaits (before.map Span.text))
    (hnosign : found.sign? = none) (hnonumber : found.value? = none) :
    (Cause.unexpectedTokenInFactor found).PointsBetween front back := by
  obtain ⟨more, hback, _⟩ := hcut.text_eq
  have hplace : (∃ e : Expression, (spans front).map Span.text <+: e.words)
      ∧ (spans front = []
        ∨ ∃ (as : List (List Char)) (op : Operator),
          (spans front).map Span.text = as ++ [op.text.toList]) := by
    rw [hcut.before_eq]
    refine ⟨hawaits.begins_expression, ?_⟩
    rcases hawaits.eq_nil_or_concat with hnil | hconcat
    · exact .inl (List.map_eq_nil_iff.mp hnil)
    · exact .inr hconcat
  refine ⟨Token.mem_of_not_operand hnosign hnonumber, ?_, ⟨bad.text, more, hback, hbad⟩, hplace⟩
  rw [← hbad.eq_nil_iff]
  constructor
  · exact hcut.eq_empty
  · intro hempty
    rw [hempty] at hback
    exact (List.append_eq_nil_iff.mp hback.symm).1

/-- **A number behind an expression** is what the back starts with. -/
theorem CutAt.points_trailing (hcut : CutAt source before bad rest front back) {w : Value}
    {e : Expression} (hbad : Spells bad.text (.number w))
    (hwords : before.map Span.text = e.words) :
    (Cause.trailingInput (.number w)).PointsBetween front back := by
  obtain ⟨more, hback, hrun⟩ := hcut.text_eq
  obtain ⟨hd, hliteral⟩ := hbad.numeral
  exact ⟨⟨bad.text, more, w, hback, hrun hd, hliteral, rfl⟩, e, by rw [hcut.before_eq, hwords]⟩

/-! ## What fails -/

theorem EndsChain.of_begins {level : Level} {as bs : List (List Char)} (h : EndsChain level bs)
    (has : as <+: bs) : EndsChain level as := by
  intro op hop hhead
  cases as with
  | nil => cases hhead
  | cons w as =>
      obtain ⟨more, rfl⟩ := has
      exact h op hop hhead

/-- Cut in front of an operand, the words behind the cut are its own and then the others. -/
theorem CutAt.wordsBehind {first : Span} {right : List Span}
    (hcut : CutAt source before first (right ++ bad :: rest) front back) :
    WordsBehind front back ((first :: right).map Span.text)
      ((bad :: rest).dropLast.map Span.text) := by
  have hspans : spansFrom front.utf8ByteSize back.toList
      = (first :: right) ++ (bad :: rest).dropLast := by
    -- without the end of input on either side
    have h := congrArg List.dropLast hcut.items_eq
    rw [List.dropLast_concat, ← List.cons_append,
      List.dropLast_append_of_ne_nil (List.cons_ne_nil _ _)] at h
    rw [hcut.start_eq, h]
  refine ⟨by rw [hspans, List.map_append], ?_⟩
  intro sp hsp
  rw [hspans] at hsp
  cases hsp
  exact hcut.start_eq.symm

theorem FailsAcross.points {op : Operator} {l r : Value} {cause : Cause}
    (h : FailsAcross front back cause) (happly : op.apply l r = .error cause) :
    cause.PointsBetween front back := by
  rcases op.apply_eq_error happly with rfl | rfl
  · exact h
  · exact h

end Cut

/-- **Where an evaluation stops with an error, the error points at what it names.** -/
theorem StopsAt.exists_cut {source : String} {read rest : List Span} {bad : Span} {e : Error}
    (h : StopsAt read bad e) (hitems : items source = read ++ bad :: rest)
    (hreads : ∀ sp ∈ read, sp.Reads) :
    ∃ before sp after front back, CutAt source before sp after front back
      ∧ sp.start = e.position ∧ (∀ s ∈ before, s.Reads) ∧ e.cause.PointsBetween front back := by
  have hlexeme : bad.text = [] ∨ Lexeme bad.text :=
    lexeme_of_mem_items (by rw [hitems]; simp)
  obtain ⟨front, back, hcut⟩ := exists_cutAt hitems
  have hunreadable (hbad : bad.outcome = .error e) :
      bad.start = e.position ∧ e.cause.PointsBetween front back := by
    obtain ⟨cause, hcause, rfl⟩ := Span.outcome_eq_error_iff.mp hbad
    exact ⟨rfl, hcut.points_unreadable hlexeme hcause⟩
  cases h with
  | unreadable _ hbad =>
      obtain ⟨hstart, hpoints⟩ := hunreadable hbad
      exact ⟨read, bad, rest, front, back, hcut, hstart, hreads, hpoints⟩
  | behind _ _ _ hbad =>
      obtain ⟨hstart, hpoints⟩ := hunreadable hbad
      exact ⟨read, bad, rest, front, back, hcut, hstart, hreads, hpoints⟩
  | missing hawaits hbad hnosign hnonumber =>
      have hspells := spells_of_reading hlexeme (Span.outcome_eq_ok_iff.mp hbad)
      exact ⟨read, bad, rest, front, back, hcut, rfl, hreads,
        hcut.points_missing hspells hawaits hnosign hnonumber⟩
  | trailing hread _ hbad =>
      have hspells := spells_of_reading hlexeme (Span.outcome_eq_ok_iff.mp hbad)
      exact ⟨read, bad, rest, front, back, hcut, rfl, hreads,
        hcut.points_trailing hspells hread⟩
  | @product before right first e e₀ t f l r cause op hread hbefore hright hlast hwords _ ht hf
      happly _ =>
      subst hread
      rw [List.append_assoc] at hitems
      obtain ⟨front, back, hcut⟩ := exists_cutAt hitems
      -- `e₀` is `e` without its last factor, so what it ends with is `t`
      obtain ⟨e₁, hlast₁, hwords₁, _⟩ := Expression.exists_shorter hlast
      obtain rfl : e₀ = e₁ :=
        Expression.words_injective (List.append_cancel_right (hwords.symm.trans hwords₁))
      have hfails : FailsAcross front back cause :=
        .product op (by rw [hcut.before_eq, hbefore]) (hright ▸ hcut.wordsBehind)
          (by rw [hlast₁]; exact ht) hf happly
      exact ⟨before, first, _, front, back, hcut, rfl, (List.forall_mem_append.mp hreads).1,
        hfails.points happly⟩
  | @sum before right first d t l r cause next op hread hbefore hright hd ht happly hbad
      hends =>
      subst hread
      rw [List.append_assoc] at hitems
      obtain ⟨front, back, hcut⟩ := exists_cutAt hitems
      -- the end of input does not count as a word here
      have hends : EndsChain .multiplicative ((bad :: rest).dropLast.map Span.text) :=
        (endsChain_of_ends hbad hends).of_begins ((List.dropLast_prefix _).map _)
      have hfails : FailsAcross front back cause :=
        .sum op (by rw [hcut.before_eq, hbefore]) (hright ▸ hcut.wordsBehind) hends hd ht happly
      exact ⟨before, first, _, front, back, hcut, rfl, (List.forall_mem_append.mp hreads).1,
        hfails.points happly⟩

/-- **Errors point at what they name.** -/
theorem position_of_evaluate_error {source : String} {e : Error} (h : evaluate source = .error e) :
    e.position ≤ source.utf8ByteSize
      ∧ ∃ front back : String, source = front ++ back ∧ front.utf8ByteSize = e.position
        ∧ (∃ ts, tokenize front = .ok ts) ∧ e.cause.PointsBetween front back := by
  have hends := ends_evaluate source
  rw [h] at hends
  cases hends with
  | error hitems hreads hstops =>
      obtain ⟨before, sp, after, front, back, hcut, hstart, hfront, hpoints⟩ :=
        hstops.exists_cut hitems hreads
      have hsize : front.utf8ByteSize = e.position := hcut.start_eq.trans hstart
      refine ⟨?_, front, back, hcut.source_eq, hsize,
        exists_tokenize_iff.mpr (hcut.before_eq ▸ hfront), hpoints⟩
      rw [hcut.source_eq, String.utf8ByteSize_append, hsize]
      exact Nat.le_add_right _ _

/-- A division by zero points behind its operator. -/
theorem position_of_division_by_zero :
    evaluate "1 / -0" = .error ⟨.divisionByZero, 4⟩
      ∧ 4 ≤ "1 / -0".utf8ByteSize
      ∧ ∃ front back : String, "1 / -0" = front ++ back ∧ front.utf8ByteSize = 4
        ∧ (∃ ts, tokenize front = .ok ts) ∧ Cause.divisionByZero.PointsBetween front back := by
  have h : evaluate "1 / -0" = .error ⟨.divisionByZero, 4⟩ := by decide +kernel
  exact ⟨h, position_of_evaluate_error h⟩

end Calculator
