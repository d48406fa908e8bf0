import Calculator.Proofs.Expression.Words

/-!
# The operations of an expression

An operation is found in a list of words by where its right operand ends. Up to there the
words are those of an expression, and the operation is the last one in it: the last
multiplication or division of its last term, or the addition or subtraction of that term.
A term is over only where no `*` or `/` follows, and so an addition is an operation of
the words only where its right operand does not go on.

Operations are carried out **from left to right, and of two whose right operands end
together the inner one first**.

Of a beginning that has a value every operation has succeeded. The converse does not hold,
and that is why `Computed` asks for less than a value: while a term goes on, the sum in
front of it has not been taken yet, and it may never be.
-/

namespace Calculator

theorem Level.eq_multiplicative {level : Level} (h : level ≠ .additive) :
    level = .multiplicative := by
  cases level with
  | additive => exact absurd rfl h
  | multiplicative => rfl

/-- A binary operation, with its operands and the place of the right one among the words. -/
structure Operation where
  operator : Operator
  left : Except Cause Value
  right : Except Cause Value
  /-- The word that the right operand starts with. -/
  start : Nat
  /-- The word behind the right operand. -/
  stop : Nat

namespace Operation

/-- Both operands have values, and the operation on them fails. -/
def FailsWith (o : Operation) (cause : Cause) : Prop :=
  ∃ l r, o.left = .ok l ∧ o.right = .ok r ∧ o.operator.apply l r = .error cause

/-- The order in which operations are carried out. -/
def Before (o o' : Operation) : Prop :=
  o.stop < o'.stop
    ∨ o.stop = o'.stop ∧ o.operator.level = .multiplicative ∧ o'.operator.level = .additive

/-- The operations among the words whose right operands are complete. -/
inductive In (ws : List (List Char)) : Operation → Prop where
  /-- A factor is joined to the term in front of it. -/
  | product {e : Expression} {t : Term} {f : Factor}
      (op : { op : Operator // op.level = .multiplicative }) :
      e.words <+: ws → e.last = t.snoc op f →
      In ws ⟨op, t.value, f.value, e.words.length - f.words.length, e.words.length⟩
  /-- A term that is over is joined to the expression in front of it. -/
  | sum {e : Expression} {t : Term} {back : List (List Char)}
      (op : { op : Operator // op.level = .additive }) :
      ws = Expression.words (e.snoc op t) ++ back → EndsChain .multiplicative back →
      In ws ⟨op, e.value, t.value, e.words.length + 1, (Expression.words (e.snoc op t)).length⟩

end Operation

/-! ## Expressions at their ends -/

@[simp] theorem Term.words_single (f : Factor) : Term.words (.single f) = f.words :=
  Chain.wordsWith_single _ f

@[simp] theorem Term.words_snoc (t : Term) (op : { op : Operator // op.level = .multiplicative })
    (f : Factor) : Term.words (t.snoc op f) = t.words ++ op.1.text.toList :: f.words :=
  Chain.wordsWith_snoc _ t op f

@[simp] theorem Expression.words_single (t : Term) : Expression.words (.single t) = t.words :=
  Chain.wordsWith_single _ t

@[simp] theorem Expression.words_snoc (e : Expression)
    (op : { op : Operator // op.level = .additive }) (t : Term) :
    Expression.words (e.snoc op t) = e.words ++ op.1.text.toList :: t.words :=
  Chain.wordsWith_snoc _ e op t

/-- A chain ends with a literal if its operands do. -/
theorem Chain.words_eq_concat {level : Level} {Operand : Type} {words : Operand → List (List Char)}
    (hx : ∀ x, ∃ (as : List (List Char)) (digits : List Char),
      words x = as ++ [digits] ∧ Numeral digits) (c : Chain level Operand) :
    ∃ (as : List (List Char)) (digits : List Char),
      c.wordsWith words = as ++ [digits] ∧ Numeral digits := by
  induction c using Chain.induction_snoc with
  | single x =>
      rw [Chain.wordsWith_single]
      exact hx x
  | snoc c op x _ =>
      obtain ⟨as, digits, h, hd⟩ := hx x
      exact ⟨c.wordsWith words ++ op.1.text.toList :: as, digits,
        by rw [Chain.wordsWith_snoc, h]; simp, hd⟩

theorem Factor.words_eq_concat (f : Factor) :
    ∃ (as : List (List Char)) (digits : List Char), f.words = as ++ [digits] ∧ Numeral digits :=
  ⟨_, f.digits, rfl, f.numeral⟩

theorem Term.words_eq_concat (t : Term) :
    ∃ (as : List (List Char)) (digits : List Char), t.words = as ++ [digits] ∧ Numeral digits :=
  Chain.words_eq_concat Factor.words_eq_concat t

/-- An expression ends with a literal. -/
theorem Expression.words_eq_concat (e : Expression) :
    ∃ (as : List (List Char)) (digits : List Char), e.words = as ++ [digits] ∧ Numeral digits :=
  Chain.words_eq_concat Term.words_eq_concat e

/-- **An expression does not reach into words that hold no literal.** -/
theorem Expression.length_le {e : Expression} {ws as bs : List (List Char)} (he : e.words <+: ws)
    (hws : as ++ bs <+: ws) (hbs : ∀ w ∈ bs, ¬ Numeral w)
    (hle : e.words.length ≤ (as ++ bs).length) : e.words.length ≤ as.length := by
  by_contra hlt
  -- otherwise its last word, a literal, would be among `bs`
  obtain ⟨front, digits, hwords, hd⟩ := e.words_eq_concat
  obtain ⟨rest, hrest⟩ := List.prefix_of_prefix_length_le he hws hle
  obtain ⟨mid, hmid⟩ := List.prefix_of_prefix_length_le ((List.prefix_append as bs).trans hws) he
    (by omega)
  have hbs' : bs = mid ++ rest := by
    rw [← hmid, List.append_assoc] at hrest
    exact (List.append_cancel_left hrest).symm
  cases mid using List.reverseRecOn with
  | nil =>
      rw [List.append_nil] at hmid
      rw [hmid] at hlt
      exact hlt (Nat.le_refl _)
  | append_singleton mid w =>
      rw [hwords, ← List.append_assoc] at hmid
      have hw : w = digits := (List.cons.inj (List.append_inj' hmid rfl).2).1
      exact hbs w (by rw [hbs']; simp) (hw ▸ hd)

namespace Expression

/-- All is computed but the addition of the last term, for which it may be too early. -/
def Computed (e : Expression) : Prop :=
  (∃ v, e.last.value = .ok v) ∧ ∀ d op t, e = d.snoc op t → ∃ v, Expression.value d = .ok v

theorem computed_single {t : Term} : Computed (.single t) ↔ ∃ v, t.value = .ok v :=
  ⟨fun h => h.1, fun h => ⟨h, fun _ _ _ he => absurd he Chain.single_ne_snoc⟩⟩

theorem computed_snoc {e : Expression} {op : { op : Operator // op.level = .additive }} {t : Term} :
    Computed (e.snoc op t) ↔ (∃ v, e.value = .ok v) ∧ ∃ v, t.value = .ok v := by
  refine ⟨fun h => ⟨h.2 e op t rfl, by simpa using h.1⟩, fun h => ?_⟩
  obtain ⟨he, ht⟩ := h
  refine ⟨by simpa using ht, fun d op' u hsnoc => ?_⟩
  obtain ⟨rfl, _, _⟩ := Chain.snoc_inj hsnoc
  exact he

theorem value_snoc_eq_ok_iff {e : Expression} {op : { op : Operator // op.level = .additive }}
    {t : Term} {v : Value} :
    Expression.value (e.snoc op t) = .ok v ↔
      ∃ l r, e.value = .ok l ∧ t.value = .ok r ∧ op.1.apply l r = .ok v :=
  Chain.valueWith_snoc_eq_ok_iff

theorem computed_of_value {e : Expression} {v : Value} (h : e.value = .ok v) : e.Computed := by
  induction e using Chain.induction_snoc with
  | single t =>
      rw [Expression.value, Chain.valueWith_single] at h
      exact computed_single.mpr ⟨v, h⟩
  | snoc e op t _ =>
      obtain ⟨l, r, hl, hr, _⟩ := value_snoc_eq_ok_iff.mp h
      exact computed_snoc.mpr ⟨⟨l, hl⟩, r, hr⟩

/-- An expression can go on with a factor. -/
theorem exists_longer (e : Expression) (op : { op : Operator // op.level = .multiplicative })
    (f : Factor) :
    ∃ e' : Expression, e'.last = e.last.snoc op f
      ∧ e'.words = e.words ++ op.1.text.toList :: f.words := by
  induction e using Chain.induction_snoc with
  | single t => exact ⟨.single (t.snoc op f), rfl, by simp⟩
  | snoc e op' t _ => exact ⟨e.snoc op' (t.snoc op f), by simp, by simp⟩

/-- And its last factor can be taken away. -/
theorem exists_shorter {e : Expression} {t : Term} {f : Factor}
    {op : { op : Operator // op.level = .multiplicative }} (h : e.last = t.snoc op f) :
    ∃ e₀ : Expression, e₀.last = t ∧ e.words = e₀.words ++ op.1.text.toList :: f.words
      ∧ ((∃ v, t.value = .ok v) → e.Computed → e₀.Computed) := by
  induction e using Chain.induction_snoc with
  | single u =>
      rw [Chain.last_single] at h
      subst h
      exact ⟨.single t, rfl, by simp, fun ht _ => computed_single.mpr ht⟩
  | snoc e op' u _ =>
      rw [Chain.last_snoc] at h
      subst h
      exact ⟨e.snoc op' t, by simp, by simp, fun ht hc =>
        computed_snoc.mpr ⟨(computed_snoc.mp hc).1, ht⟩⟩

end Expression

/-! ## What has been computed has succeeded -/

theorem not_numeral_of_mem_signs {signs : List Sign} :
    ∀ w ∈ signs.map (fun sign => sign.text.toList), ¬ Numeral w := by
  intro w hw
  obtain ⟨s, _, rfl⟩ := List.mem_map.mp hw
  exact s.not_numeral

/-- The words that lead from an operand to the literal behind an operator. -/
theorem not_numeral_of_mem_operator_signs {op : Operator} {signs : List Sign} :
    ∀ w ∈ op.text.toList :: signs.map (fun sign => sign.text.toList), ¬ Numeral w :=
  List.forall_mem_cons.mpr ⟨op.not_numeral, not_numeral_of_mem_signs⟩

namespace Operation

variable {ws : List (List Char)} {o : Operation} {cause : Cause}

theorem In.exists_expression (h : o.In ws) :
    ∃ e : Expression, e.words <+: ws ∧ o.stop = e.words.length := by
  cases h with
  | product op hws _ => exact ⟨_, hws, rfl⟩
  | @sum e t back op hws _ => exact ⟨e.snoc op t, ⟨back, hws.symm⟩, rfl⟩

/-- Operations end with the literals of the words. -/
theorem In.stop_le (h : o.In ws) {as bs : List (List Char)} (hws : as ++ bs <+: ws)
    (hbs : ∀ w ∈ bs, ¬ Numeral w) (hle : o.stop ≤ (as ++ bs).length) : o.stop ≤ as.length := by
  obtain ⟨e, he, hstop⟩ := h.exists_expression
  rw [hstop] at hle ⊢
  exact e.length_le he hws hbs hle

/-- The words before an operation's end determine it: it is the last product there, -/
theorem In.product_of_stop_eq (h : o.In ws) {e : Expression} (he : e.words <+: ws)
    (hstop : o.stop = e.words.length) (hlevel : o.operator.level = .multiplicative) :
    ∃ (t : Term) (op : { op : Operator // op.level = .multiplicative }) (f : Factor),
      e.last = t.snoc op f
        ∧ o = ⟨op, t.value, f.value, e.words.length - f.words.length, e.words.length⟩ := by
  cases h with
  | @product e' t f op he' hlast =>
      have heq : e' = e := Expression.words_injective
        ((List.prefix_of_prefix_length_le he' he (Nat.le_of_eq hstop)).eq_of_length hstop)
      subst heq
      exact ⟨t, op, f, hlast, rfl⟩
  | sum op _ _ => exact absurd (op.2.symm.trans hlevel) (by decide)

/-- or the last sum. -/
theorem In.sum_of_stop_eq (h : o.In ws) {e : Expression} (he : e.words <+: ws)
    (hstop : o.stop = e.words.length) (hlevel : o.operator.level = .additive) :
    ∃ (d : Expression) (op : { op : Operator // op.level = .additive }) (t : Term)
      (back : List (List Char)), e = d.snoc op t ∧ ws = e.words ++ back
        ∧ EndsChain .multiplicative back
        ∧ o = ⟨op, d.value, t.value, d.words.length + 1, e.words.length⟩ := by
  cases h with
  | product op _ _ => exact absurd (op.2.symm.trans hlevel) (by decide)
  | @sum d t back op hws hback =>
      have hd : Expression.words (d.snoc op t) <+: ws := ⟨back, hws.symm⟩
      have heq : d.snoc op t = e := Expression.words_injective
        ((List.prefix_of_prefix_length_le hd he (Nat.le_of_eq hstop)).eq_of_length hstop)
      subst heq
      exact ⟨d, op, t, back, rfl, hws, hback, rfl⟩

/-- Where `*` or `/` follows, no sum ends. -/
theorem In.multiplicative_of_next (h : o.In ws) {e : Expression} {op : Operator}
    {bs : List (List Char)} (hop : op.level = .multiplicative)
    (hws : e.words ++ op.text.toList :: bs <+: ws) (hstop : o.stop = e.words.length) :
    o.operator.level = .multiplicative := by
  refine Level.eq_multiplicative fun hlevel => ?_
  have he : e.words <+: ws := (List.prefix_append _ _).trans hws
  obtain ⟨_, _, _, back, _, hback, hends, _⟩ := h.sum_of_stop_eq he hstop hlevel
  -- what stands behind the sum starts with `op`, which does not end a term
  obtain ⟨more, hmore⟩ := hws
  rw [hback, List.append_assoc] at hmore
  have htail := List.append_cancel_left hmore
  exact absurd (by rw [← htail]; rfl) (hends op hop)

theorem not_failsWith_of_ok {l r v : Value} (hl : o.left = .ok l) (hr : o.right = .ok r)
    (hv : o.operator.apply l r = .ok v) : ¬ o.FailsWith cause := by
  intro hfails
  obtain ⟨l', r', hl', hr', herror⟩ := hfails
  cases hl.symm.trans hl'
  cases hr.symm.trans hr'
  cases hv.symm.trans herror

theorem FailsWith.unique {cause' : Cause} (h : o.FailsWith cause) (h' : o.FailsWith cause') :
    cause = cause' := by
  obtain ⟨l, r, hl, hr, herror⟩ := h
  obtain ⟨l', r', hl', hr', herror'⟩ := h'
  cases hl.symm.trans hl'
  cases hr.symm.trans hr'
  cases herror.symm.trans herror'
  rfl

/-- The last sum of an expression with a value has succeeded. -/
theorem In.sum_succeeds (h : o.In ws) {e : Expression} (he : e.words <+: ws) {v : Value}
    (hv : e.value = .ok v) (hstop : o.stop = e.words.length)
    (hlevel : o.operator.level = .additive) : ¬ o.FailsWith cause := by
  obtain ⟨d, op, t, _, rfl, _, _, rfl⟩ := h.sum_of_stop_eq he hstop hlevel
  obtain ⟨l, r, hl, hr, happly⟩ := Expression.value_snoc_eq_ok_iff.mp hv
  exact not_failsWith_of_ok hl hr happly

/-- The last product of a term with a value has succeeded. -/
theorem In.product_succeeds (h : o.In ws) {e : Expression} (he : e.words <+: ws) {v : Value}
    (hv : e.last.value = .ok v) (hstop : o.stop = e.words.length)
    (hlevel : o.operator.level = .multiplicative) : ¬ o.FailsWith cause := by
  obtain ⟨t, op, f, hlast, rfl⟩ := h.product_of_stop_eq he hstop hlevel
  rw [hlast] at hv
  obtain ⟨l, r, hl, hr, happly⟩ := Chain.valueWith_snoc_eq_ok_iff.mp hv
  exact not_failsWith_of_ok hl hr happly

/-- No operation ends between an operator and the literal behind it. -/
theorem In.stop_le_of_factor (h : o.In ws) {as : List (List Char)} {op : Operator} {f : Factor}
    (hws : as ++ op.text.toList :: f.words <+: ws)
    (hlt : o.stop < (as ++ op.text.toList :: f.words).length) : o.stop ≤ as.length := by
  have hsplit : as ++ op.text.toList :: f.words
      = (as ++ op.text.toList :: f.signs.map (fun sign => sign.text.toList)) ++ [f.digits] := by
    simp [Factor.words]
  rw [hsplit] at hws hlt
  rw [List.length_append, List.length_singleton] at hlt
  exact h.stop_le ((List.prefix_append _ _).trans hws) not_numeral_of_mem_operator_signs (by omega)

/-- Before the first literal there is no operation. -/
theorem In.not_stop_le_signs (h : o.In ws) {signs : List Sign}
    (hws : signs.map (fun sign => sign.text.toList) <+: ws) : ¬ o.stop ≤ signs.length := by
  intro hle
  have hzero : o.stop ≤ ([] : List (List Char)).length :=
    h.stop_le hws not_numeral_of_mem_signs (by simpa using hle)
  obtain ⟨e, _, hstop⟩ := h.exists_expression
  have hpos := List.length_pos_iff.mpr e.words_ne_nil
  simp only [List.length_nil] at hzero
  omega

/--
**What has been computed has succeeded.** By induction on the number of words, the last
literal being taken away: it is the right operand of a product or a term by itself.
-/
theorem In.not_failsWith_of_computed (h : o.In ws) {e : Expression} (hc : e.Computed)
    (he : e.words <+: ws) (hle : o.stop ≤ e.words.length)
    (hlast : o.stop = e.words.length → o.operator.level = .multiplicative) :
    ¬ o.FailsWith cause := by
  induction hn : e.words.length using Nat.strongRecOn generalizing e with
  | ind n ih =>
    by_cases hstop : o.stop = e.words.length
    · obtain ⟨v, hv⟩ := hc.1
      exact h.product_succeeds he hv hstop (hlast hstop)
    rcases e.last.single_or_snoc with ⟨f, hterm⟩ | ⟨t, op, f, hterm⟩
    · rcases e.single_or_snoc with ⟨t, rfl⟩ | ⟨d, op, t, rfl⟩
      · -- the first literal of all
        rw [Chain.last_single] at hterm
        subst hterm
        simp only [Expression.words_single, Term.words_single, Factor.words] at he hle hstop
        rw [List.length_append, List.length_map, List.length_singleton] at hle hstop
        exact absurd (by omega) (h.not_stop_le_signs ((List.prefix_append _ _).trans he))
      · -- the first literal of a term: the sum in front of it has been taken
        rw [Chain.last_snoc] at hterm
        subst hterm
        obtain ⟨v, hv⟩ := hc.2 d op _ rfl
        simp only [Expression.words_snoc, Term.words_single] at he hle hstop hn
        have hd : Expression.words d <+: ws := (List.prefix_append _ _).trans he
        have hle' := h.stop_le_of_factor he (by omega)
        by_cases hsum : o.stop = (Expression.words d).length ∧ o.operator.level = .additive
        · exact h.sum_succeeds hd hv hsum.1 hsum.2
        · refine ih _ ?_ (Expression.computed_of_value hv) hd hle'
            (fun heq => Level.eq_multiplicative fun hlevel => hsum ⟨heq, hlevel⟩) rfl
          rw [← hn, List.length_append, List.length_cons]
          omega
    · -- a later literal of a term: the sum in front of the term is left for later
      obtain ⟨v, hv⟩ := hc.1
      rw [hterm] at hv
      obtain ⟨l, _, hl, _, _⟩ := Chain.valueWith_snoc_eq_ok_iff.mp hv
      obtain ⟨e₀, _, hwords, hc₀⟩ := Expression.exists_shorter hterm
      rw [hwords] at he hle hstop hn
      have he₀ : e₀.words <+: ws := (List.prefix_append _ _).trans he
      refine ih _ ?_ (hc₀ ⟨l, hl⟩ hc) he₀ (h.stop_le_of_factor he (by omega))
        (h.multiplicative_of_next op.2 he) rfl
      rw [← hn, List.length_append, List.length_cons]
      omega

/-- **No operation of an expression with a value has failed.** -/
theorem In.not_failsWith_of_value (h : o.In ws) {e : Expression} {v : Value}
    (hv : e.value = .ok v) (he : e.words <+: ws) (hle : o.stop ≤ e.words.length) :
    ¬ o.FailsWith cause := by
  by_cases hsum : o.stop = e.words.length ∧ o.operator.level = .additive
  · exact h.sum_succeeds he hv hsum.1 hsum.2
  · exact h.not_failsWith_of_computed (Expression.computed_of_value hv) he hle
      (fun heq => Level.eq_multiplicative fun hlevel => hsum ⟨heq, hlevel⟩)

end Operation

end Calculator
