import Calculator.Proofs.Evaluate.Outcome

/-!
# How far an evaluation has come

When an evaluation stops with an error at an item, two things hold of the items in front
of it: **an expression can begin with them** (`StopsAt.viable`), and **no operation whose
right operand was complete one item earlier has failed** (`StopsAt.quiet`). Which error
is the first one follows from these two.
-/

namespace Calculator

/-! ## Where an operand is awaited -/

/-- Every sign looks like an operator. -/
theorem Sign.exists_operator (s : Sign) : ∃ op : Operator, s.text = op.text := by
  cases s with
  | plus => exact ⟨.add, rfl⟩
  | minus => exact ⟨.sub, rfl⟩

theorem Sign.reading_text (s : Sign) :
    ∃ t, reading s.text.toList = .ok t ∧ t.sign? = some s := by
  cases s with
  | plus => exact ⟨.plus, rfl, rfl⟩
  | minus => exact ⟨.minus, rfl, rfl⟩

/-- Words that end with an operator and signs end with what looks like an operator. -/
theorem exists_concat_operator (as : List (List Char)) (op : Operator) (signs : List Sign) :
    ∃ (bs : List (List Char)) (op' : Operator),
      as ++ op.text.toList :: signs.map (fun sign => sign.text.toList)
        = bs ++ [op'.text.toList] := by
  cases signs using List.reverseRecOn with
  | nil => exact ⟨as, op, rfl⟩
  | append_singleton signs s =>
      obtain ⟨op', hs⟩ := s.exists_operator
      refine ⟨as ++ op.text.toList :: signs.map (fun sign => sign.text.toList), op', ?_⟩
      simp [hs]

namespace Awaits

variable {as ws : List (List Char)} {o : Operation} {cause : Cause}

/-- A numeral is what is missing. -/
theorem exists_words (h : Awaits as) {digits : List Char} (hd : Numeral digits) :
    ∃ e : Expression, e.words = as ++ [digits] := by
  cases h with
  | start signs has =>
      refine ⟨.single (.single ⟨signs, digits, hd.ne_nil, hd.isDigit⟩), ?_⟩
      rw [has, Expression.words_single, Term.words_single, Factor.words]
  | @product e op signs _ has =>
      obtain ⟨e', _, hwords⟩ := e.exists_longer op ⟨signs, digits, hd.ne_nil, hd.isDigit⟩
      refine ⟨e', ?_⟩
      rw [hwords, has, Factor.words]
      simp
  | @sum e v op signs _ has =>
      refine ⟨e.snoc op (.single ⟨signs, digits, hd.ne_nil, hd.isDigit⟩), ?_⟩
      rw [has, Expression.words_snoc, Term.words_single, Factor.words]
      simp

/-- Some expression goes on from here. -/
theorem begins_expression (h : Awaits as) : ∃ e : Expression, as <+: e.words := by
  have hzero : Numeral ['0'] := ⟨List.cons_ne_nil _ _, fun c hc => List.mem_singleton.mp hc ▸ rfl⟩
  obtain ⟨e, he⟩ := h.exists_words hzero
  exact ⟨e, [['0']], he.symm⟩

theorem viable (h : Awaits as) : Viable as := by
  obtain ⟨e, he⟩ := h.begins_expression
  exact ⟨e, he.trans (List.prefix_append _ _)⟩

/-- Nothing has been read, or an operator or a sign was the last. -/
theorem eq_nil_or_concat (h : Awaits as) :
    as = [] ∨ ∃ (bs : List (List Char)) (op : Operator), as = bs ++ [op.text.toList] := by
  cases h with
  | start signs has =>
      cases signs with
      | nil => exact .inl has
      | cons s signs =>
          -- the first sign looks like an operator, and the others are signs behind it
          obtain ⟨op, hs⟩ := s.exists_operator
          obtain ⟨bs, op', hbs⟩ := exists_concat_operator [] op signs
          refine .inr ⟨bs, op', ?_⟩
          rw [has, List.map_cons, hs]
          exact hbs
  | product op signs _ has =>
      obtain ⟨bs, op', hbs⟩ := exists_concat_operator _ op.1 signs
      exact .inr ⟨bs, op', has.trans hbs⟩
  | sum op signs _ has =>
      obtain ⟨bs, op', hbs⟩ := exists_concat_operator _ op.1 signs
      exact .inr ⟨bs, op', has.trans hbs⟩

/-- **Only a numeral or a sign can stand here.** -/
theorem numeral_or_sign (h : Awaits as) {b : List Char} (hb : Viable (as ++ [b])) :
    Numeral b ∨ ∃ s : Sign, b = s.text.toList := by
  refine hb.adjacent.2 ?_
  rcases h.eq_nil_or_concat with rfl | ⟨bs, op, rfl⟩
  · exact Sign.plus.not_numeral
  · rw [List.getLast?_concat, Option.getD_some]
    exact op.not_numeral

/-- What is neither has no place here. -/
theorem not_viable (h : Awaits as) {bad : Span} {found : Token} (hbad : bad.outcome = .ok found)
    (hnosign : found.sign? = none) (hnonumber : found.value? = none) :
    ¬ Viable (as ++ [bad.text]) := by
  intro hv
  rw [Span.outcome_eq_ok_iff] at hbad
  rcases h.numeral_or_sign hv with hd | ⟨s, hs⟩
  · rw [hd.reading] at hbad
    obtain ⟨v, rfl⟩ := literal_eq_ok hbad
    cases hnonumber
  · obtain ⟨t, ht, hsign⟩ := s.reading_text
    rw [hs, ht] at hbad
    cases hbad
    cases hsign.symm.trans hnosign

/-- No expression ends here. -/
theorem ne_words (h : Awaits as) (e : Expression) : as ≠ e.words := by
  obtain ⟨bs, digits, hwords, hd⟩ := e.words_eq_concat
  rw [hwords]
  rcases h.eq_nil_or_concat with rfl | ⟨cs, op, rfl⟩
  · simp
  · intro heq
    have htext : op.text.toList = digits := (List.cons.inj (List.append_inj' heq rfl).2).1
    exact op.not_numeral (htext ▸ hd)

/-- **No operation has failed** in front of the place where an operand is awaited. -/
theorem quiet (h : Awaits as) (ho : o.In ws) (hws : as <+: ws) (hle : o.stop ≤ as.length) :
    ¬ o.FailsWith cause := by
  cases h with
  | start signs has =>
      subst has
      exact absurd (by simpa using hle) (ho.not_stop_le_signs hws)
  | product op signs hc has =>
      subst has
      exact ho.not_failsWith_of_computed hc ((List.prefix_append _ _).trans hws)
        (ho.stop_le hws not_numeral_of_mem_operator_signs hle)
        (ho.multiplicative_of_next op.2 hws)
  | sum op signs hv has =>
      subst has
      exact ho.not_failsWith_of_value hv ((List.prefix_append _ _).trans hws)
        (ho.stop_le hws not_numeral_of_mem_operator_signs hle)

end Awaits

/-- Behind an expression there is no place for a numeral. -/
theorem Expression.not_viable_numeral (e : Expression) {digits : List Char} (hd : Numeral digits) :
    ¬ Viable (e.words ++ [digits]) := by
  intro hv
  obtain ⟨as, last, hwords, hlast⟩ := e.words_eq_concat
  have hadjacent := hv.adjacent
  rw [hwords, List.getLast?_concat, Option.getD_some] at hadjacent
  exact hadjacent.1 hlast hd

/-! ## Where an evaluation stops -/

/-- An operator reads as the token that stands for it. -/
theorem Operator.reading_text (op : Operator) :
    ∃ t, reading op.text.toList = .ok t ∧ t.operator? = some op := by
  cases op with
  | add => exact ⟨.plus, rfl, rfl⟩
  | sub => exact ⟨.minus, rfl, rfl⟩
  | mul => exact ⟨.star, rfl, rfl⟩
  | div => exact ⟨.slash, rfl, rfl⟩

/-- Behind a token that ends the term the words do not go on with it. -/
theorem endsChain_of_ends {bad : Span} {rest : List Span} {next : Token} {level : Level}
    (hbad : bad.outcome = .ok next) (hends : next.Ends level) :
    EndsChain level ((bad :: rest).map Span.text) := by
  intro op hop hhead
  obtain ⟨t, ht, htop⟩ := op.reading_text
  have htext : bad.text = op.text.toList := Option.some.inj hhead
  rw [Span.outcome_eq_ok_iff, htext, ht] at hbad
  cases hbad
  exact hends op htop hop

theorem lexeme_of_mem_items {source : String} {sp : Span} (h : sp ∈ items source) :
    sp.text = [] ∨ Lexeme sp.text := by
  rw [items_eq] at h
  rcases List.mem_append.mp h with h | h
  · exact .inr (lexeme_of_mem_spans h)
  · exact .inl (List.mem_singleton.mp h ▸ rfl)

/-- The words of what was read, when it falls into an operand with an operator and an operand. -/
theorem map_text_eq {read before right : List Span} {as bs : List (List Char)} {w : List Char}
    (h : read = before ++ right) (hbefore : before.map Span.text = as ++ [w])
    (hright : right.map Span.text = bs) : read.map Span.text = as ++ w :: bs := by
  rw [h, List.map_append, hbefore, hright, List.append_assoc, List.singleton_append]

section

variable {before right : List Span} {first : Span} {l r : Value} {cause : Cause}

/-- The right operand starts where what stands in front of it ends. -/
theorem getElem?_first (before right : List Span) (first : Span) :
    (before ++ first :: right)[before.length]? = some first := by
  rw [List.getElem?_append_right (Nat.le_refl _), Nat.sub_self, List.getElem?_cons_zero]

/-- **A product that fails at the end of what was read**, and where its right operand starts. -/
theorem exists_product_of_read {e : Expression} {t : Term} {f : Factor}
    (op : { op : Operator // op.level = .multiplicative })
    (hread : (before ++ first :: right).map Span.text = e.words)
    (hright : (first :: right).map Span.text = f.words) (hlast : e.last = t.snoc op f)
    (ht : t.value = .ok l) (hf : f.value = .ok r) (happly : op.1.apply l r = .error cause)
    {ws : List (List Char)} (hws : (before ++ first :: right).map Span.text <+: ws) :
    ∃ o : Operation, o.In ws ∧ o.operator.level = .multiplicative ∧ o.FailsWith cause
      ∧ o.stop = (before ++ first :: right).length
      ∧ (before ++ first :: right)[o.start]? = some first := by
  have hlen : e.words.length = (before ++ first :: right).length := by
    rw [← hread, List.length_map]
  have hstart : e.words.length - f.words.length = before.length := by
    rw [hlen, ← hright, List.length_append, List.length_map, Nat.add_sub_cancel]
  exact ⟨_, .product op (hread ▸ hws) hlast, op.2, ⟨l, r, ht, hf, happly⟩, hlen,
    hstart ▸ getElem?_first before right first⟩

/-- **And a sum**, which is over with the item behind it. -/
theorem exists_sum_of_read {d : Expression} {t : Term} {bad : Span} {next : Token}
    (op : { op : Operator // op.level = .additive })
    (hbefore : before.map Span.text = d.words ++ [op.1.text.toList])
    (hright : (first :: right).map Span.text = t.words) (hd : d.value = .ok l)
    (ht : t.value = .ok r) (happly : op.1.apply l r = .error cause)
    (hbad : bad.outcome = .ok next) (hends : next.Ends .multiplicative) (rest : List Span) :
    ∃ o : Operation, o.In ((before ++ first :: right ++ bad :: rest).map Span.text)
      ∧ o.operator.level = .additive ∧ o.FailsWith cause
      ∧ o.stop = (before ++ first :: right).length
      ∧ (before ++ first :: right)[o.start]? = some first := by
  have hread : (before ++ first :: right).map Span.text = Expression.words (d.snoc op t) :=
    (map_text_eq rfl hbefore hright).trans (Expression.words_snoc d op t).symm
  have hstart : before.length = d.words.length + 1 := by
    rw [← List.length_map (f := Span.text), hbefore, List.length_append, List.length_singleton]
  have hchain : EndsChain .multiplicative ((bad :: rest).map Span.text) :=
    endsChain_of_ends hbad hends
  refine ⟨_, .sum op ?_ hchain, op.2, ⟨l, r, hd, ht, happly⟩, ?_,
    hstart ▸ getElem?_first before right first⟩
  · rw [List.map_append, hread]
  · rw [← hread, List.length_map]

end

namespace StopsAt

variable {read rest : List Span} {bad : Span} {e : Error}

/-- **An expression can begin with what was read.** -/
theorem viable (h : StopsAt read bad e) : Viable (read.map Span.text) := by
  cases h with
  | unreadable h _ => exact h.viable
  | behind h hd hread _ =>
      obtain ⟨e, he⟩ := h.exists_words hd
      rw [hread, ← he]
      exact e.viable_words
  | missing h _ _ _ => exact h.viable
  | trailing hread _ _ => exact hread ▸ Expression.viable_words _
  | @product before right first e _ t f _ _ _ op hread hbefore hright _ hwords _ _ _ _ _ =>
      have heq : read.map Span.text = e.words :=
        (map_text_eq hread hbefore hright).trans hwords.symm
      exact heq ▸ e.viable_words
  | @sum before right first d t _ _ _ _ op hread hbefore hright _ _ _ _ _ =>
      have heq : read.map Span.text = Expression.words (d.snoc op t) :=
        (map_text_eq hread hbefore hright).trans (Expression.words_snoc d op t).symm
      exact heq ▸ Expression.viable_words _

/-- **No operation that was complete one item earlier has failed.** -/
theorem quiet (h : StopsAt read bad e) {ws : List (List Char)} {o : Operation} {cause : Cause}
    (ho : o.In ws) (hws : read.map Span.text <+: ws) (hlt : o.stop < read.length) :
    ¬ o.FailsWith cause := by
  cases h with
  | unreadable h _ => exact h.quiet ho hws (by rw [List.length_map]; omega)
  | @behind as digits e h hd hread _ =>
      have hlen : read.length = as.length + 1 := by
        rw [← List.length_map (f := Span.text), hread, List.length_append, List.length_singleton]
      rw [hread] at hws
      exact h.quiet ho ((List.prefix_append _ _).trans hws) (by omega)
  | missing h _ _ _ => exact h.quiet ho hws (by rw [List.length_map]; omega)
  | trailing hread hv _ =>
      rw [hread] at hws
      refine ho.not_failsWith_of_value hv hws ?_
      rw [← hread, List.length_map]
      omega
  | @product before right first e e₀ t f _ _ _ op hread hbefore hright _ hwords hc _ _ _ _ =>
      have heq := map_text_eq hread hbefore hright
      rw [← List.length_map (f := Span.text), heq] at hlt
      rw [heq] at hws
      -- the failed product itself ends with what was read, and so is not among these
      exact ho.not_failsWith_of_computed hc ((List.prefix_append _ _).trans hws)
        (ho.stop_le_of_factor hws hlt) (ho.multiplicative_of_next op.2 hws)
  | @sum before right first d t l r _ _ op hread hbefore hright hd ht _ _ _ =>
      have heq : read.map Span.text = Expression.words (d.snoc op t) :=
        (map_text_eq hread hbefore hright).trans (Expression.words_snoc d op t).symm
      rw [← List.length_map (f := Span.text), heq] at hlt
      rw [heq] at hws
      exact ho.not_failsWith_of_computed (Expression.computed_snoc.mpr ⟨⟨l, hd⟩, r, ht⟩) hws
        (Nat.le_of_lt hlt) (fun hstop => absurd hstop (Nat.ne_of_lt hlt))

end StopsAt

end Calculator
