import Calculator.Proofs.Expression.Items
import Calculator.Proofs.Expression.Literal
import Calculator.Proofs.Expression.Words

/-!
# What the rules read

A rule for a kind of tree ends in one of two ways, and `Rule.Reads` says what each means.

* It **succeeds** with a value: then what it read are the words of a tree of that value,
  and the token looked at then does not continue the tree.
* It **fails** with an error: then it is *stuck*, and the predicate `stuck` says on what.
  For a factor that is a span that cannot be read or that starts no operand. A chain is
  stuck where an operand is, behind a beginning that has a value, or else on an operation
  that fails.

The two loops of the grammar are one rule, `Rule.chain`, and have one proof.
-/

namespace Calculator

/-- On what a factor can be stuck. -/
inductive Factor.Stuck (read : List Span) (bad : Span) : Error → Prop where
  /-- Behind some signs nothing could be read. -/
  | unreadable {e : Error} (signs : List Sign) :
      read.map Span.text = signs.map (fun sign => sign.text.toList) →
      bad.outcome = .error e → Factor.Stuck read bad e
  /-- Behind the literal nothing could be read. -/
  | behind {e : Error} (f : Factor) :
      read.map Span.text = f.words → bad.outcome = .error e → Factor.Stuck read bad e
  /-- Behind some signs stood no number. -/
  | missing {found : Token} (signs : List Sign) :
      read.map Span.text = signs.map (fun sign => sign.text.toList) →
      bad.outcome = .ok found → found.sign? = none → found.value? = none →
      Factor.Stuck read bad ⟨.unexpectedTokenInFactor found, bad.start⟩

/-- On what a chain can be stuck, given on what an operand can and what follows an operand. -/
inductive Chain.Stuck (level : Level) {Operand : Type} (words : Operand → List (List Char))
    (value : Operand → Except Cause Value) (follow : Token → Prop)
    (stuck : List Span → Span → Error → Prop) : List Span → Span → Error → Prop where
  /-- The first operand. -/
  | first {read : List Span} {bad : Span} {e : Error} : stuck read bad e →
      Chain.Stuck level words value follow stuck read bad e
  /-- A later operand. -/
  | later {before read : List Span} {bad : Span} {e : Error} {l : Value}
      (c : Chain level Operand) (op : { op : Operator // op.level = level }) :
      before.map Span.text = c.wordsWith words ++ [op.1.text.toList] →
      c.valueWith value = .ok l → stuck read bad e →
      Chain.Stuck level words value follow stuck (before ++ read) bad e
  /-- An operation whose operands are complete. -/
  | operation {before right : List Span} {first bad : Span} {x : Operand} {l r : Value}
      {cause : Cause} {next : Token} (c : Chain level Operand)
      (op : { op : Operator // op.level = level }) :
      before.map Span.text = c.wordsWith words ++ [op.1.text.toList] →
      (first :: right).map Span.text = words x →
      c.valueWith value = .ok l → value x = .ok r → op.1.apply l r = .error cause →
      bad.outcome = .ok next → follow next →
      Chain.Stuck level words value follow stuck (before ++ first :: right) bad ⟨cause, first.start⟩

/-- No operator of the level follows. -/
def Token.Ends (level : Level) (t : Token) : Prop :=
  ∀ op, t.operator? = some op → op.level ≠ level

/-- What can stand behind a term that is complete. -/
def Term.Follow (t : Token) : Prop := True ∧ t.Ends .multiplicative

/-- What can stand behind an expression that is complete. -/
def Expression.Follow (t : Token) : Prop := Term.Follow t ∧ t.Ends .additive

/-- On what a term can be stuck. -/
def Term.Stuck : List Span → Span → Error → Prop :=
  Chain.Stuck .multiplicative Factor.words Factor.value (fun _ => True) Factor.Stuck

/-- On what an expression can be stuck. -/
def Expression.Stuck : List Span → Span → Error → Prop :=
  Chain.Stuck .additive Term.words Term.value Term.Follow Term.Stuck

/-- What can be said about a rule for trees with these words and values. -/
structure Rule.Reads {T : Type} (rule : Rule) (words : T → List (List Char))
    (value : T → Except Cause Value) (follow : Token → Prop)
    (stuck : List Span → Span → Error → Prop) : Prop where
  ok : ∀ {r r' : Reader} {v : Value}, r.Faithful → rule.run r = (.ok v, r') →
    ∃ read x, r.Passes r' read ∧ read.map Span.text = words x ∧ value x = .ok v
      ∧ follow r'.current
  error : ∀ {r r' : Reader} {e : Error}, r.Faithful → rule.run r = (.error e, r') →
    ∃ read bad, r.Halts r' read bad ∧ stuck read bad e
  /-- A tree has words. -/
  words_ne_nil : ∀ x, words x ≠ []
  /-- Before anything is read, one can be stuck on whatever cannot be read. -/
  unreadable : ∀ {bad : Span} {e : Error}, bad.outcome = .error e → stuck [] bad e

namespace Rule

/-! ## Factors -/

/-- A sign that is looked at is the first word of what is read. -/
theorem text_of_sign {r : Reader} (hr : r.Faithful) {s : Sign} (hs : r.current.sign? = some s) :
    r.span.text = s.text.toList := hr.spells.text_of_sign hs

theorem numeral_of_number {r : Reader} (hr : r.Faithful) {v : Value}
    (h : r.current = .number v) :
    Numeral r.span.text ∧ literal r.span.text = .ok (.number v) :=
  Spells.numeral (h ▸ hr.spells)

/-- The signs read before count as if they stood in front. -/
theorem signed_ok {sign : Sign} {r r' : Reader} {v : Value} (hr : r.Faithful)
    (h : signed sign r = (.ok v, r')) :
    ∃ read f lit, r.Passes r' read ∧ read.map Span.text = Factor.words f
      ∧ literal f.digits = .ok (.number lit)
      ∧ v = (sign.combine (Sign.ofRun f.signs)).applyToLiteral f.digits lit := by
  revert hr h
  fun_induction signed sign r with
  | case1 sign r next hs r₁ ha ih =>
      intro hr h
      have hpass := Reader.advance_passes hr (Reader.ne_endOfInput_of_sign? hs) ha
      obtain ⟨read, f, lit, hread, hwords, hlit, hv⟩ := ih hpass.faithful h
      refine ⟨[r.span] ++ read, ⟨next :: f.signs, f.digits, f.digits_ne_nil, f.isDigit⟩, lit,
        hpass.trans hread, ?_, hlit, ?_⟩
      · rw [List.map_append, hwords, List.map_singleton, text_of_sign hr hs]
        rfl
      · rw [hv, Sign.ofRun_cons, Sign.combine_assoc]
  | case2 sign r next hs e r₁ ha =>
      intro hr h
      cases h
  | case3 sign r hs value hc r₁ ha =>
      intro hr h
      cases h
      obtain ⟨hd, hl⟩ := numeral_of_number hr hc
      exact ⟨[r.span], ⟨[], r.span.text, hd.ne_nil, hd.isDigit⟩, value,
        Reader.advance_passes hr (Reader.ne_endOfInput_of_number hc) ha, rfl, hl, rfl⟩
  | case4 sign r hs value hc e r₁ ha =>
      intro hr h
      cases h
  | case5 sign r hs hc =>
      intro hr h
      cases h

theorem signed_error {sign : Sign} {r r' : Reader} {e : Error} (hr : r.Faithful)
    (h : signed sign r = (.error e, r')) :
    ∃ read bad, r.Halts r' read bad ∧ Factor.Stuck read bad e := by
  revert hr h
  fun_induction signed sign r with
  | case1 sign r next hs r₁ ha ih =>
      intro hr h
      have hpass := Reader.advance_passes hr (Reader.ne_endOfInput_of_sign? hs) ha
      have htext := text_of_sign hr hs
      obtain ⟨read, bad, hhalts, hstuck⟩ := ih hpass.faithful h
      refine ⟨[r.span] ++ read, bad, hpass.trans_halts hhalts, ?_⟩
      cases hstuck with
      | unreadable signs hsigns hbad =>
          refine .unreadable (next :: signs) ?_ hbad
          rw [List.map_append, hsigns, List.map_singleton, htext]
          rfl
      | behind f hwords hbad =>
          refine .behind ⟨next :: f.signs, f.digits, f.digits_ne_nil, f.isDigit⟩ ?_ hbad
          rw [List.map_append, hwords, List.map_singleton, htext]
          rfl
      | missing signs hsigns hbad hnosign hnonumber =>
          refine .missing (next :: signs) ?_ hbad hnosign hnonumber
          rw [List.map_append, hsigns, List.map_singleton, htext]
          rfl
  | case2 sign r next hs e₁ r₁ ha =>
      intro hr h
      cases h
      obtain ⟨bad, hhalts, hbad⟩ :=
        Reader.advance_halts hr (Reader.ne_endOfInput_of_sign? hs) ha
      exact ⟨[r.span], bad, hhalts,
        .unreadable [next] (by simp [text_of_sign hr hs]) hbad⟩
  | case3 sign r hs value hc r₁ ha =>
      intro hr h
      cases h
  | case4 sign r hs value hc e₁ r₁ ha =>
      intro hr h
      cases h
      obtain ⟨hd, _⟩ := numeral_of_number hr hc
      obtain ⟨bad, hhalts, hbad⟩ := Reader.advance_halts hr (Reader.ne_endOfInput_of_number hc) ha
      exact ⟨[r.span], bad, hhalts,
        .behind ⟨[], r.span.text, hd.ne_nil, hd.isDigit⟩ rfl hbad⟩
  | case5 sign r hs hc =>
      intro hr h
      cases h
      refine ⟨[], _, (Reader.Passes.refl hr).halts,
        .missing [] rfl (Span.outcome_eq_ok_iff.mpr hr.reading) hs ?_⟩
      cases hcur : r'.current with
      | number v => exact absurd hcur (hc v)
      | _ => rfl

/-- **The rule for factors** reads a signed literal and computes its value. -/
theorem reads_factor : factor.Reads Factor.words Factor.value (fun _ => True) Factor.Stuck where
  ok hr h := by
    obtain ⟨read, f, lit, hread, hwords, hlit, rfl⟩ := signed_ok hr h
    exact ⟨read, f, hread, hwords, by rw [Factor.value_of_literal hlit, Sign.plus_combine], trivial⟩
  error hr h := signed_error hr h
  words_ne_nil := Factor.words_ne_nil
  unreadable h := .unreadable [] rfl h

/-! ## Chains -/

theorem operator?_eq_some {level : Level} {r : Reader} {op : Operator}
    (h : r.operator? level = some op) : r.current.operator? = some op ∧ op.level = level := by
  simpa [Reader.operator?, Option.filter_eq_some_iff] using h

theorem ends_of_operator?_eq_none {level : Level} {r : Reader} (h : r.operator? level = none) :
    r.current.Ends level := by
  intro op hop
  simpa [Reader.operator?, Option.filter_eq_none_iff, hop] using h

theorem operator?_text {level : Level} {r : Reader} {op : Operator} (hr : r.Faithful)
    (ho : r.operator? level = some op) : r.span.text = op.text.toList ∧ op.level = level :=
  ⟨hr.spells.text_of_operator (operator?_eq_some ho).1, (operator?_eq_some ho).2⟩

/-- Reading past an operator of the level. -/
theorem advance_operator {level : Level} {r r₁ : Reader} {op : Operator} (hr : r.Faithful)
    (ho : r.operator? level = some op) (ha : r.advance = (.ok (), r₁)) :
    r.Passes r₁ [r.span] ∧ r.span.text = op.text.toList ∧ op.level = level :=
  ⟨Reader.advance_passes hr (Reader.ne_endOfInput_of_operator? ho) ha, operator?_text hr ho⟩

section

variable {level : Level} {T : Type} {operand : Rule} {words : T → List (List Char)}
  {value : T → Except Cause Value} {follow : Token → Prop}
  {stuck : List Span → Span → Error → Prop}

/-- What has been read is a chain `c` of value `left`, and the loop makes it longer. -/
theorem joinFrom_ok (hx : operand.Reads words value follow stuck) {left : Value} {r r' : Reader}
    {v : Value} {c : Chain level T} (hr : r.Faithful) (hc : c.valueWith value = .ok left)
    (hf : follow r.current) (h : joinFrom level operand left r = (.ok v, r')) :
    ∃ (read : List Span) (d : Chain level T), r.Passes r' read
      ∧ c.wordsWith words ++ read.map Span.text = d.wordsWith words ∧ d.valueWith value = .ok v
      ∧ follow r'.current ∧ r'.current.Ends level := by
  revert h
  fun_induction joinFrom level operand left r generalizing c with
  | case1 left r ho =>
      intro h
      cases h
      exact ⟨[], c, .refl hr, by simp, hc, hf, ends_of_operator?_eq_none ho⟩
  | case2 left r op ho e r₁ ha =>
      intro h
      cases h
  | case3 left r op ho r₁ ha e r₂ hrun =>
      intro h
      cases h
  | case4 left r op ho r₁ ha right r₂ hrun e he =>
      intro h
      cases h
  | case5 left r op ho r₁ ha right r₂ hrun value' hv ih =>
      intro h
      obtain ⟨hpass, htext, hop⟩ := advance_operator hr ho ha
      obtain ⟨read, x, hread, hwords, hx', hf'⟩ := hx.ok hpass.faithful hrun
      -- the loop goes on with the chain that has grown
      have hsnoc : (c.snoc ⟨op, hop⟩ x).valueWith value = .ok value' :=
        Chain.valueWith_snoc_eq_ok_iff.mpr ⟨left, right, hc, hx', Operator.applyAt_eq_ok_iff.mp hv⟩
      obtain ⟨more, d, hmore, hd, hdv, hends⟩ := ih hread.faithful hsnoc hf' h
      refine ⟨[r.span] ++ read ++ more, d, (hpass.trans hread).trans hmore, ?_, hdv, hends⟩
      rw [← hd, Chain.wordsWith_snoc]
      simp [hwords, htext]

/-- Where the loop is stuck, what it read stands behind the words of the chain. -/
theorem joinFrom_error (hx : operand.Reads words value follow stuck) {left : Value}
    {r r' : Reader} {e : Error} {c : Chain level T} {before : List Span} (hr : r.Faithful)
    (hc : c.valueWith value = .ok left) (hbefore : before.map Span.text = c.wordsWith words)
    (h : joinFrom level operand left r = (.error e, r')) :
    ∃ read bad, r.Halts r' read bad
      ∧ Chain.Stuck level words value follow stuck (before ++ read) bad e := by
  revert h
  fun_induction joinFrom level operand left r generalizing c before with
  | case1 left r ho =>
      intro h
      cases h
  | case2 left r op ho e₁ r₁ ha =>
      intro h
      cases h
      obtain ⟨htext, hop⟩ := operator?_text hr ho
      obtain ⟨bad, hhalts, hbad⟩ :=
        Reader.advance_halts hr (Reader.ne_endOfInput_of_operator? ho) ha
      refine ⟨[r.span], bad, hhalts, ?_⟩
      -- the operand was to be read, and nothing of it could be
      rw [← List.append_nil (before ++ [r.span])]
      exact .later c ⟨op, hop⟩ (by simp [hbefore, htext]) hc (hx.unreadable hbad)
  | case3 left r op ho r₁ ha e₁ r₂ hrun =>
      intro h
      cases h
      obtain ⟨hpass, htext, hop⟩ := advance_operator hr ho ha
      obtain ⟨read, bad, hhalts, hstuck⟩ := hx.error hpass.faithful hrun
      refine ⟨[r.span] ++ read, bad, hpass.trans_halts hhalts, ?_⟩
      rw [← List.append_assoc]
      exact .later c ⟨op, hop⟩ (by simp [hbefore, htext]) hc hstuck
  | case4 left r op ho r₁ ha right r₂ hrun e₁ he =>
      intro h
      cases h
      obtain ⟨hpass, htext, hop⟩ := advance_operator hr ho ha
      obtain ⟨read, x, hread, hwords, hx', hf'⟩ := hx.ok hpass.faithful hrun
      obtain ⟨cause, hcause, rfl⟩ := Operator.applyAt_eq_error_iff.mp he
      refine ⟨[r.span] ++ read, _, (hpass.trans hread).halts, ?_⟩
      rw [← List.append_assoc]
      -- the operand starts where the reader looked when it went to read it
      obtain ⟨more, rfl⟩ : ∃ more, read = r₁.span :: more := by
        cases read with
        | nil => exact absurd hwords.symm (hx.words_ne_nil x)
        | cons first more => exact ⟨more, by rw [(List.cons.inj hread.items_eq).1]⟩
      exact .operation c ⟨op, hop⟩ (by simp [hbefore, htext]) hwords hc hx' hcause
        (Span.outcome_eq_ok_iff.mpr hread.faithful.reading) hf'
  | case5 left r op ho r₁ ha right r₂ hrun value' hv ih =>
      intro h
      obtain ⟨hpass, htext, hop⟩ := advance_operator hr ho ha
      obtain ⟨read, x, hread, hwords, hx', _⟩ := hx.ok hpass.faithful hrun
      have hsnoc : (c.snoc ⟨op, hop⟩ x).valueWith value = .ok value' :=
        Chain.valueWith_snoc_eq_ok_iff.mpr ⟨left, right, hc, hx', Operator.applyAt_eq_ok_iff.mp hv⟩
      have hbefore' : (before ++ ([r.span] ++ read)).map Span.text
          = (c.snoc ⟨op, hop⟩ x).wordsWith words := by
        simp [hbefore, hwords, htext]
      obtain ⟨more, bad, hhalts, hstuck⟩ := ih hread.faithful hsnoc hbefore' h
      refine ⟨[r.span] ++ read ++ more, bad, (hpass.trans hread).trans_halts hhalts, ?_⟩
      rwa [← List.append_assoc]

/-- **A chain reads what its operands read**, joined by operators of its level. -/
theorem reads_chain (hx : operand.Reads words value follow stuck) :
    (chain level operand).Reads (fun c : Chain level T => c.wordsWith words)
      (fun c => c.valueWith value) (fun t => follow t ∧ t.Ends level)
      (Chain.Stuck level words value follow stuck) where
  ok := by
    intro r r' v hr h
    rw [chain] at h
    dsimp only at h
    split at h
    · cases h
    · rename_i left r₁ hrun
      obtain ⟨read, x, hread, hwords, hx', hf⟩ := hx.ok hr hrun
      obtain ⟨more, d, hmore, hd, hdv, hends⟩ :=
        joinFrom_ok hx (c := .single x) hread.faithful (by rw [Chain.valueWith_single, hx']) hf h
      refine ⟨read ++ more, d, hread.trans hmore, ?_, hdv, hends⟩
      rw [List.map_append, hwords, ← hd, Chain.wordsWith_single]
  error := by
    intro r r' e hr h
    rw [chain] at h
    dsimp only at h
    split at h
    · rename_i hrun
      cases h
      obtain ⟨read, bad, hhalts, hstuck⟩ := hx.error hr hrun
      exact ⟨read, bad, hhalts, .first hstuck⟩
    · rename_i left r₁ hrun
      obtain ⟨read, x, hread, hwords, hx', _⟩ := hx.ok hr hrun
      obtain ⟨more, bad, hhalts, hstuck⟩ :=
        joinFrom_error hx (c := .single x) hread.faithful (by rw [Chain.valueWith_single, hx'])
          (by rw [hwords, Chain.wordsWith_single]) h
      exact ⟨read ++ more, bad, hread.trans_halts hhalts, hstuck⟩
  words_ne_nil c := by simp [Chain.wordsWith, hx.words_ne_nil]
  unreadable h := .first (hx.unreadable h)

end

/-- **The rule for terms.** -/
theorem reads_term : term.Reads Term.words Term.value Term.Follow Term.Stuck :=
  reads_chain reads_factor

/-- **The rule for expressions.** -/
theorem reads_expression :
    expression.Reads Expression.words Expression.value Expression.Follow Expression.Stuck :=
  reads_chain reads_term

end Rule

end Calculator
