import Calculator.Proofs.Evaluate.Progress
import Calculator.Proofs.Expression.Consume
import Calculator.Proofs.Session.Faithful

/-!
# Each rule takes the longest word there is

A rule may be called on any reader, in the middle of a source and behind a failure. What it
consumes then is not a matter of what was called before. **If it succeeds, it has consumed the
longest word of its production** that stands in front of the reader, and its value is that of
the tree. If an operand is missing, the words consumed break off exactly there. And if an
operation fails, its right operand has been consumed and nothing behind it, so that whoever
goes on finds the next token.

The three rules come out of one another as chains do. What is said of a chain is shown once,
from what is said of its operands.
-/

namespace Calculator

/-! ## What is said about a call -/

/--
What a call of the rule on the reader comes to. A tree has the words `words` and the value
`value`, `follow` says what may stand behind it, and the operations in it are of these levels.
-/
structure Rule.TakesLongest {T : Type} (rule : Rule) (words : T → List (List Char))
    (value : T → Except Cause Value) (follow : Token → Prop) (levels : List Level)
    (r : Reader) : Prop where
  /-- With a value, it has consumed a word of that value, and none that stands there is longer. -/
  ok : ∀ {v : Value} {r' : Reader}, rule.run r = (.ok v, r') →
    ∃ (w : Looks) (x : T), r.Consumes w r' ∧ w.texts = words x
      ∧ List.Forall₂ Spells (words x) w.tokens ∧ value x = .ok v ∧ follow r'.current
      ∧ ∀ y, words y <+: r.items.map Span.text → (words y).length ≤ w.length
  /-- Where an operand is missing, another token is looked at. What has been consumed ends
  with an operator or a sign, if there is anything, and is the beginning of a word. -/
  missing : ∀ {found : Token} {position : Nat} {r' : Reader},
    rule.run r = (.error ⟨.unexpectedTokenInFactor found, position⟩, r') →
    ∃ w : Looks, r.Consumes w r' ∧ r'.current = found
      ∧ found ∈ [.star, .slash, .endOfInput] ∧ position = r'.span.start
      ∧ (∀ t ∈ w.tokens.getLast?, t ∈ [.plus, .minus, .star, .slash])
      ∧ ∃ x, w.texts <+: words x ∧ w.texts ≠ words x
  /-- Where an operation fails, what has been consumed ends where its right operand does. -/
  failing : ∀ {cause : Cause} {position : Nat} {r' : Reader}, cause.isRuntime →
    rule.run r = (.error ⟨cause, position⟩, r') →
    ∃ (w : Looks) (o : Operation), r.Consumes w r' ∧ o.In (r.items.map Span.text)
      ∧ o.operator.level ∈ levels ∧ o.FailsWith cause ∧ o.stop = w.length
      ∧ ∃ look, w[o.start]? = some look ∧ position = look.2.start

/-! ## Missing operands -/

/-- The words break off where an operand has to follow. -/
structure BreaksOff {T : Type} (words : T → List (List Char)) (ws : List (List Char)) : Prop where
  concat : ws = [] ∨ ∃ (front : List (List Char)) (op : Operator), ws = front ++ [op.text.toList]
  completed : ∃ x, words x = ws ++ [['0']]

/-- At `bad`, behind `read`, an operand is missing. -/
structure Misses {T : Type} (words : T → List (List Char)) (read : List Span) (bad : Span)
    (found : Token) (position : Nat) : Prop where
  outcome_eq : bad.outcome = .ok found
  position_eq : position = bad.start
  sign?_eq : found.sign? = none
  value?_eq : found.value? = none
  breaksOff : BreaksOff words (read.map Span.text)

theorem Misses.mem {T : Type} {words : T → List (List Char)} {read : List Span} {bad : Span}
    {found : Token} {position : Nat} (h : Misses words read bad found position) :
    found ∈ [.star, .slash, .endOfInput] := by
  have hsign := h.sign?_eq
  have hvalue := h.value?_eq
  cases found with
  | number v => cases hvalue
  | plus => cases hsign
  | minus => cases hsign
  | star | slash | endOfInput => decide

/-- Behind its signs a factor breaks off. -/
theorem Factor.breaksOff (signs : List Sign) :
    BreaksOff Factor.words (signs.map fun sign => sign.text.toList) where
  concat := by
    cases signs using List.reverseRecOn with
    | nil => exact .inl rfl
    | append_singleton signs s =>
        obtain ⟨op, hs⟩ := s.exists_operator
        exact .inr ⟨signs.map fun sign => sign.text.toList, op, by simp [hs]⟩
  completed := ⟨⟨signs, ['0'], List.cons_ne_nil _ _, List.forall_mem_singleton.mpr rfl⟩, rfl⟩

theorem Factor.Stuck.misses {read : List Span} {bad : Span} {found : Token} {position : Nat}
    (h : Factor.Stuck read bad ⟨.unexpectedTokenInFactor found, position⟩) :
    Misses Factor.words read bad found position := by
  cases h with
  | unreadable _ _ hbad => cases Span.isLexical_of_outcome hbad
  | behind _ _ hbad => cases Span.isLexical_of_outcome hbad
  | missing signs hsigns hbad hnosign hnonumber =>
      exact ⟨hbad, rfl, hnosign, hnonumber, hsigns ▸ Factor.breaksOff signs⟩

section

variable {level : Level} {T : Type} {words : T → List (List Char)}
  {value : T → Except Cause Value} {follow : Token → Prop}
  {stuck : List Span → Span → Error → Prop}

theorem BreaksOff.single {ws : List (List Char)} (h : BreaksOff words ws) :
    BreaksOff (fun c : Chain level T => c.wordsWith words) ws := by
  obtain ⟨x, hx⟩ := h.completed
  exact ⟨h.concat, .single x, by rw [Chain.wordsWith_single, hx]⟩

/-- Behind a chain and an operator the words break off as those of the operand do. -/
theorem BreaksOff.snoc {ws : List (List Char)} (h : BreaksOff words ws) (c : Chain level T)
    (op : { op : Operator // op.level = level }) :
    BreaksOff (fun c : Chain level T => c.wordsWith words)
      (c.wordsWith words ++ op.1.text.toList :: ws) where
  concat := by
    rcases h.concat with rfl | ⟨front, op', rfl⟩
    · exact .inr ⟨_, op.1, rfl⟩
    · exact .inr ⟨c.wordsWith words ++ op.1.text.toList :: front, op', by simp⟩
  completed := by
    obtain ⟨x, hx⟩ := h.completed
    exact ⟨c.snoc op x, by rw [Chain.wordsWith_snoc, hx]; simp⟩

/-- **Where a chain misses an operand**, one of its operands does. -/
theorem Chain.Stuck.misses
    (hx : ∀ {read bad found position},
      stuck read bad ⟨.unexpectedTokenInFactor found, position⟩ →
        Misses words read bad found position)
    {read : List Span} {bad : Span} {found : Token} {position : Nat}
    (h : Chain.Stuck level words value follow stuck read bad
      ⟨.unexpectedTokenInFactor found, position⟩) :
    Misses (fun c : Chain level T => c.wordsWith words) read bad found position := by
  cases h with
  | first h =>
      have hm := hx h
      exact ⟨hm.outcome_eq, hm.position_eq, hm.sign?_eq, hm.value?_eq, hm.breaksOff.single⟩
  | @later before read bad e l c op hbefore _ h =>
      have hm := hx h
      refine ⟨hm.outcome_eq, hm.position_eq, hm.sign?_eq, hm.value?_eq, ?_⟩
      rw [List.map_append, hbefore, List.append_assoc, List.singleton_append]
      exact hm.breaksOff.snoc c op
  | operation c op _ _ _ _ happly _ _ =>
      rcases Operator.apply_eq_error happly with h | h <;> cases h

end

/-! ## Failing operations -/

theorem Cause.isLexical_of_isRuntime {cause : Cause} (h : cause.isRuntime) :
    cause.isLexical = false := by
  cases cause with
  | divisionByZero | overflow => rfl
  | _ => cases h

/-- The last operation in front of `bad` has failed, an operation of one of the levels. -/
structure FailsAt (levels : List Level) (read : List Span) (bad : Span) (e : Error) : Prop where
  reads : bad.Reads
  operation : ∀ rest, ∃ o : Operation, o.In ((read ++ bad :: rest).map Span.text)
    ∧ o.operator.level ∈ levels ∧ o.FailsWith e.cause ∧ o.stop = read.length
    ∧ ∃ first, read[o.start]? = some first ∧ e.position = first.start

theorem FailsAt.mono {levels levels' : List Level} {read : List Span} {bad : Span} {e : Error}
    (h : FailsAt levels read bad e) (hle : levels ⊆ levels') : FailsAt levels' read bad e where
  reads := h.reads
  operation rest := by
    obtain ⟨o, ho, hlevel, hrest⟩ := h.operation rest
    exact ⟨o, ho, hle hlevel, hrest⟩

/-- A factor has no operations. -/
theorem Factor.Stuck.not_isRuntime {read : List Span} {bad : Span} {e : Error}
    (h : Factor.Stuck read bad e) : ¬ e.cause.isRuntime := by
  intro he
  have hlexical := Cause.isLexical_of_isRuntime he
  cases h with
  | unreadable _ _ hbad => cases hlexical.symm.trans (Span.isLexical_of_outcome hbad)
  | behind _ _ hbad => cases hlexical.symm.trans (Span.isLexical_of_outcome hbad)
  | missing _ _ _ _ _ => cases he

/-- **The product that fails in a term** is the last of the expression that ends there. -/
theorem Term.Stuck.failsAt (before : List Span) {read : List Span} {bad : Span} {e : Error}
    (hbefore : BeforeTerm (before.map Span.text)) (h : Term.Stuck read bad e)
    (he : e.cause.isRuntime) : FailsAt [.multiplicative] (before ++ read) bad e := by
  cases h with
  | first h => exact absurd he h.not_isRuntime
  | later _ _ _ _ h => exact absurd he h.not_isRuntime
  | @operation inner right first bad f l r cause next t op hinner hright ht hf happly hbad _ =>
      refine ⟨⟨next, hbad⟩, fun rest => ?_⟩
      obtain ⟨e, hlast, hwords, _⟩ := hbefore.exists_expression (t.snoc op f)
      rw [← List.append_assoc]
      have hread : (before ++ inner ++ first :: right).map Span.text = e.words := by
        rw [List.append_assoc, List.map_append, hwords, map_text_eq rfl hinner hright]
        simp [Term.words]
      obtain ⟨o, ho, hlevel, hfails, hstop, hstart⟩ :=
        exists_product_of_read op hread hright hlast ht hf happly
          ((List.prefix_append _ (bad :: rest)).map Span.text)
      exact ⟨o, ho, hlevel ▸ List.mem_singleton_self _, hfails, hstop, first, hstart, rfl⟩

/-- **The operation that fails in an expression** is a product of its last term, or the sum with
that term, which is over then. -/
theorem Expression.Stuck.failsAt {read : List Span} {bad : Span} {e : Error}
    (h : Expression.Stuck read bad e) (he : e.cause.isRuntime) :
    FailsAt [.multiplicative, .additive] read bad e := by
  have hle : [Level.multiplicative] ⊆ [.multiplicative, .additive] := by simp
  cases h with
  | first h => exact (h.failsAt [] (.nothing rfl) he).mono hle
  | later d op hbefore hd h => exact (h.failsAt _ (.sum (d := d) op hd hbefore) he).mono hle
  | @operation before right first bad t l r cause next d op hbefore hright hd ht happly hbad
      hfollow =>
      refine ⟨⟨next, hbad⟩, fun rest => ?_⟩
      obtain ⟨o, ho, hlevel, hfails, hstop, hstart⟩ :=
        exists_sum_of_read op hbefore hright hd ht happly hbad hfollow.2 rest
      exact ⟨o, ho, by rw [hlevel]; decide, hfails, hstop, first, hstart, rfl⟩

/-! ## The three rules -/

/-- What ends with an operator or a sign ends with the token of one. -/
theorem mem_of_getLast? {ws : List (List Char)} {ts : List Token} (h : List.Forall₂ Spells ws ts)
    (hws : ws = [] ∨ ∃ (front : List (List Char)) (op : Operator), ws = front ++ [op.text.toList]) :
    ∀ t ∈ ts.getLast?, t ∈ [.plus, .minus, .star, .slash] := by
  intro t ht
  rw [← List.forall₂_reverse_iff] at h
  rw [List.getLast?_eq_head?_reverse] at ht
  rcases hws with rfl | ⟨front, op, rfl⟩
  · rw [List.reverse_nil, List.forall₂_nil_left_iff] at h
    rw [h] at ht
    cases ht
  · rw [List.reverse_append, List.reverse_singleton, List.singleton_append,
      List.forall₂_cons_left_iff] at h
    obtain ⟨t', ts', hspells, _, hts⟩ := h
    rw [hts] at ht
    cases ht
    obtain ⟨t', hreading, hop⟩ := op.reading_text
    cases hspells.reading.symm.trans hreading
    cases t <;> cases hop <;> decide

/-- **From what a rule reads and what it consumes follows what it takes.** -/
theorem Rule.Reads.takesLongest {T : Type} {rule : Rule} {words : T → List (List Char)}
    {value : T → Except Cause Value} {follow follow' : Token → Prop}
    {stuck : List Span → Span → Error → Prop} {levels : List Level}
    (h : rule.Reads words value follow stuck) (hconsumes : rule.OnlyConsumes)
    (hfollow : ∀ t, follow t → follow' t)
    (hlongest : ∀ {x y bs} {r' : Reader}, r'.Faithful → follow r'.current →
      words x ++ r'.items.map Span.text = words y ++ bs → (words y).length ≤ (words x).length)
    (hmisses : ∀ {read bad found position},
      stuck read bad ⟨.unexpectedTokenInFactor found, position⟩ →
        Misses words read bad found position)
    (hfails : ∀ {read bad e}, stuck read bad e → e.cause.isRuntime → FailsAt levels read bad e)
    {r : Reader} (hr : r.Faithful) : rule.TakesLongest words value follow' levels r where
  ok := by
    intro v r' hrun
    obtain ⟨read, x, hread, hwords, hv, hf⟩ := h.ok hr hrun
    obtain ⟨w, hw⟩ := hconsumes hrun rfl
    obtain rfl := hw.spans_eq hr hread
    refine ⟨w, x, hw, hwords, hwords ▸ (hw.passes hr).2, hv, hfollow _ hf, fun y hy => ?_⟩
    obtain ⟨bs, hbs⟩ := hy
    have hitems : words x ++ r'.items.map Span.text = words y ++ bs := by
      rw [hbs, hread.items_eq, List.map_append, hwords]
    have hlen : (words x).length = w.length := by
      rw [← hwords, List.length_map, Looks.spans, List.length_map]
    exact hlen ▸ hlongest hread.faithful hf hitems
  missing := by
    intro found position r' hrun
    obtain ⟨read, bad, hhalts, hstuck⟩ := h.error hr hrun
    have hm := hmisses hstuck
    obtain ⟨hread, rfl⟩ := hhalts.passes ⟨found, hm.outcome_eq⟩
    obtain ⟨w, hw⟩ := hconsumes hrun rfl
    obtain rfl := hw.spans_eq hr hread
    have hcurrent := hread.faithful.current_eq (Span.outcome_eq_ok_iff.mp hm.outcome_eq)
    obtain ⟨x, hx⟩ := hm.breaksOff.completed
    refine ⟨w, hw, hcurrent, hm.mem, hm.position_eq,
      mem_of_getLast? (hw.passes hr).2 hm.breaksOff.concat, x, ⟨_, hx.symm⟩, fun heq => ?_⟩
    have hlen := congrArg List.length (heq.trans hx)
    rw [Looks.texts, List.length_append] at hlen
    exact Nat.succ_ne_self _ hlen.symm
  failing := by
    intro cause position r' hcause hrun
    obtain ⟨read, bad, hhalts, hstuck⟩ := h.error hr hrun
    have hf := hfails hstuck hcause
    obtain ⟨hread, rfl⟩ := hhalts.passes hf.reads
    obtain ⟨w, hw⟩ := hconsumes hrun (by
      rw [lexicalError?, errorOf?, Option.filter_some_neg]
      simp [Cause.isLexical_of_isRuntime hcause])
    obtain rfl := hw.spans_eq hr hread
    obtain ⟨rest, hitems, _⟩ := hhalts.items_eq
    obtain ⟨o, ho, hlevel, hfailing, hstop, first, hfirst, hposition⟩ := hf.operation rest
    rw [Looks.spans, List.getElem?_map, Option.map_eq_some_iff] at hfirst
    obtain ⟨look, hlook, rfl⟩ := hfirst
    exact ⟨w, o, hw, hitems ▸ ho, hlevel, hfailing, hstop.trans (List.length_map _), look, hlook,
      hposition⟩

section

variable {r : Reader}

theorem Rule.takesLongest_factor (hr : r.Faithful) :
    factor.TakesLongest Factor.words Factor.value (fun _ => True) [] r :=
  reads_factor.takesLongest factor_onlyConsumes (fun _ h => h)
    (fun _ _ h => Nat.le_of_eq (by rw [(Factor.words_append_inj h).1])) Factor.Stuck.misses
    (fun h he => absurd he h.not_isRuntime) hr

theorem Term.Follow.notMem {t : Token} (h : Term.Follow t) : t ∉ [Token.star, .slash] := by
  intro ht
  rcases List.mem_pair.mp ht with rfl | rfl
  · exact h.2 .mul rfl rfl
  · exact h.2 .div rfl rfl

theorem Rule.takesLongest_term (hr : r.Faithful) :
    term.TakesLongest Term.words Term.value (fun t => t ∉ [Token.star, .slash])
      [.multiplicative] r :=
  reads_term.takesLongest term_onlyConsumes (fun _ => Term.Follow.notMem)
    (fun hr' hf h => Term.length_words_le
      (endsChain_of_ends (Span.outcome_eq_ok_iff.mpr hr'.reading) hf.2) h)
    (Chain.Stuck.misses Factor.Stuck.misses)
    (fun h he => Term.Stuck.failsAt [] (.nothing rfl) h he) hr

theorem Rule.takesLongest_expression (hr : r.Faithful) :
    expression.TakesLongest Expression.words Expression.value
      (fun t => t = .endOfInput ∨ ∃ v, t = .number v) [.multiplicative, .additive] r := by
  refine reads_expression.takesLongest expression_onlyConsumes (fun t h => ?_)
    (fun hr' hf h => ?_) (Chain.Stuck.misses (Chain.Stuck.misses Factor.Stuck.misses))
    Expression.Stuck.failsAt hr
  · by_cases hend : t = .endOfInput
    · exact .inl hend
    · exact .inr (number_of_follow h hend)
  · have hbad := Span.outcome_eq_ok_iff.mpr hr'.reading
    exact Expression.length_words_le
      ⟨endsChain_of_ends hbad hf.1.2, endsChain_of_ends hbad hf.2⟩ h

end

/-- **Each rule takes the longest word of its production**, from whatever reader is reached, and
where it fails, what it has consumed breaks off in the right place. -/
theorem takesLongest_of_run {source : String} {calls : List Call} {answers : List Answer}
    {r : Reader} (h : (Session.start source).run calls = some (answers, .looking r)) :
    Rule.factor.TakesLongest Factor.words Factor.value (fun _ => True) [] r
      ∧ Rule.term.TakesLongest Term.words Term.value (fun t => t ∉ [Token.star, .slash])
        [.multiplicative] r
      ∧ Rule.expression.TakesLongest Expression.words Expression.value
        (fun t => t = .endOfInput ∨ ∃ v, t = .number v) [.multiplicative, .additive] r := by
  have hr := Session.faithful_of_run h
  exact ⟨Rule.takesLongest_factor hr, Rule.takesLongest_term hr, Rule.takesLongest_expression hr⟩

/-- A factor has failed behind its literal, and the term that begins with that literal goes on
behind what could not be read, up to a division by zero. -/
theorem takesLongest_of_run_behind_error :
    ∃ answers r, (Session.start "2 ? * 3 / 0").run [.look, .factor] = some (answers, .looking r)
      ∧ answers.map Answer.error? = [none, some ⟨.invalidCharacter '?', 2⟩]
      ∧ ∃ (w : Looks) (o : Operation) (r' : Reader),
        Rule.term.run r = (.error ⟨.divisionByZero, 10⟩, r') ∧ r.Consumes w r'
          ∧ o.In (r.items.map Span.text) ∧ o.FailsWith .divisionByZero ∧ o.stop = w.length
          ∧ ∃ look, w[o.start]? = some look ∧ 10 = look.2.start := by
  have hshown : ((Session.start "2 ? * 3 / 0").run [.look, .factor]).bind (fun result =>
      result.2.reader?.map fun r => (result.1.map Answer.error?, (Rule.term.run r).1))
      = some ([none, some ⟨.invalidCharacter '?', 2⟩], .error ⟨.divisionByZero, 10⟩) := by
    decide +kernel
  obtain ⟨⟨answers, s⟩, hrun, hshown⟩ := Option.bind_eq_some_iff.mp hshown
  obtain ⟨r, hr, hshown⟩ := Option.map_eq_some_iff.mp hshown
  obtain rfl := Session.reader?_eq_some_iff.mp hr
  obtain ⟨hanswers, hterm⟩ := Prod.mk.inj hshown
  have hresult : Rule.term.run r = (.error ⟨.divisionByZero, 10⟩, (Rule.term.run r).2) :=
    Prod.ext hterm rfl
  obtain ⟨w, o, hw, ho, -, hfails, hstop, hlook⟩ :=
    (takesLongest_of_run hrun).2.1.failing rfl hresult
  exact ⟨answers, r, hrun, hanswers, w, o, _, hresult, hw, ho, hfails, hstop, hlook⟩

end Calculator
