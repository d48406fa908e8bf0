import Calculator.Proofs.Evaluate.Failure

/-!
# What an evaluation means

A source is read once, from left to right, and each operation is carried out as soon as
its operands are complete. The result is nevertheless that of the tree: **a source has a
value exactly if it can be read as tokens, the tokens have a derivation in the grammar,
and the value is that of the derivation**. There is one derivation at the most, for the
words determine the tree.

That an evaluation which goes well has found the tree is part of `ends_evaluate`. The
other direction goes by what is wrong with a source: an evaluation that fails reports a
failure, and a source that spells an expression with a value has none.
-/

namespace Calculator

/-! ## Tokens -/

theorem mapM_outcome_eq_ok_iff {sps : List Span} (h : ∀ sp ∈ sps, Lexeme sp.text)
    {ts : List Token} :
    sps.mapM Span.outcome = .ok ts ↔ List.Forall₂ Spells (sps.map Span.text) ts := by
  induction sps generalizing ts with
  | nil =>
      rw [List.mapM_nil, List.map_nil, List.forall₂_nil_left_iff]
      exact ⟨fun hts => by cases hts; rfl, fun hts => hts ▸ rfl⟩
  | cons sp sps ih =>
      have htail : ∀ us, sps.mapM Span.outcome = .ok us ↔ List.Forall₂ Spells _ us :=
        fun us => ih fun s hs => h s (List.mem_cons_of_mem sp hs)
      rw [List.mapM_cons, List.map_cons, List.forall₂_cons_left_iff]
      refine ⟨fun hrun => ?_, fun h => ?_⟩
      · cases ht : sp.outcome with
        | error e => rw [ht] at hrun; cases hrun
        | ok t =>
            rw [ht] at hrun
            cases hts : sps.mapM Span.outcome with
            | error e => rw [hts] at hrun; cases hrun
            | ok us =>
                rw [hts] at hrun
                cases hrun
                exact ⟨t, us, spells_of_reading (.inr (h sp List.mem_cons_self))
                  (Span.outcome_eq_ok_iff.mp ht), (htail us).mp hts, rfl⟩
      · obtain ⟨t, us, ht, hus, rfl⟩ := h
        rw [Span.outcome_eq_ok_iff.mpr ht.reading, (htail us).mpr hus]
        rfl

/-- **The tokens of a source are what its spans spell.** -/
theorem tokenize_eq_ok_iff {source : String} {ts : List Token} :
    tokenize source = .ok ts ↔ List.Forall₂ Spells ((spans source).map Span.text) ts :=
  mapM_outcome_eq_ok_iff fun _ hsp => lexeme_of_mem_spans hsp

/-- A source has tokens as long as each of its spans reads as one. -/
theorem exists_tokenize_iff {source : String} :
    (∃ ts, tokenize source = .ok ts) ↔ ∀ sp ∈ spans source, sp.Reads := by
  refine ⟨fun h sp hsp => ?_, fun hreads => ?_⟩
  · obtain ⟨ts, hts⟩ := h
    rw [tokenize_eq_ok_iff, List.forall₂_map_left_iff] at hts
    obtain ⟨i, hi, rfl⟩ := List.getElem_of_mem hsp
    have hspells := hts.get hi (hts.length_eq ▸ hi)
    exact ⟨_, Span.outcome_eq_ok_iff.mpr hspells.reading⟩
  · refine ⟨(spans source).map fun sp => (sp.outcome.toOption).getD .endOfInput, ?_⟩
    rw [tokenize_eq_ok_iff, List.forall₂_map_left_iff, List.forall₂_map_right_iff,
      List.forall₂_same]
    intro sp hsp
    obtain ⟨t, ht⟩ := hreads sp hsp
    rw [ht]
    exact spells_of_reading (.inr (lexeme_of_mem_spans hsp)) (Span.outcome_eq_ok_iff.mp ht)

/-- The tree is a derivation of the tokens: its words spell them one by one. -/
def Expression.Derives (e : Expression) (ts : List Token) : Prop :=
  List.Forall₂ Spells e.words ts

/-! ## Values -/

/-- **A source that can be read has the value of the tree that it spells.** -/
theorem evaluate_eq_ok_iff {source : String} {v : Value} :
    evaluate source = .ok v ↔
      (∀ sp ∈ spans source, sp.Reads)
        ∧ ∃ e : Expression, (spans source).map Span.text = e.words ∧ e.value = .ok v := by
  have hends := ends_evaluate source
  refine ⟨fun hrun => ?_, fun h => ?_⟩
  · rw [hrun] at hends
    cases hends with
    | value hwords hv hreads => exact ⟨hreads, _, hwords, hv⟩
  · obtain ⟨hreads, e, hwords, hv⟩ := h
    cases hrun : evaluate source with
    | ok w =>
        rw [hrun] at hends
        cases hends with
        | value hwords' hw _ =>
            cases Expression.words_injective (hwords.symm.trans hwords')
            cases hv.symm.trans hw
            rfl
    | error err =>
        -- there would be a failure to report
        rw [hrun] at hends
        cases hends with
        | error hitems hbefore hstops =>
            obtain ⟨f, hf, _⟩ := hstops.exists_first hitems hbefore
            exact absurd hf (not_isFailure_of_value hwords hv hreads f)

/-- **Evaluating a source gives the value of its derivation**, and there is no more than one. -/
theorem evaluate_eq_ok_iff_derivation (source : String) (v : Value) :
    evaluate source = .ok v ↔
      ∃ ts, tokenize source = .ok ts
        ∧ ∃! e : Expression,
          (spans source).map Span.text = e.words ∧ e.Derives ts ∧ e.value = .ok v := by
  rw [evaluate_eq_ok_iff, ← exists_tokenize_iff]
  refine ⟨fun h => ?_, fun h => ?_⟩
  · obtain ⟨⟨ts, hts⟩, e, hwords, hv⟩ := h
    have hderives : e.Derives ts := by
      rw [tokenize_eq_ok_iff, hwords] at hts
      exact hts
    refine ⟨ts, hts, e, ⟨hwords, hderives, hv⟩, fun e' he' => ?_⟩
    exact Expression.words_injective (he'.1.symm.trans hwords)
  · obtain ⟨ts, hts, e, ⟨hwords, _, hv⟩, _⟩ := h
    exact ⟨⟨ts, hts⟩, e, hwords, hv⟩

end Calculator
