import Calculator.Proofs.Expression.Advance
import Calculator.Proofs.Expression.InStep
import Calculator.Proofs.Session.Finite
import Calculator.Proofs.Source.Tiling

/-!
# What a reader looks at and where it stands

A reader is a token, the span of that token and a cursor, and they do not always change
together: where the next token cannot be read, the cursor goes on behind the bad text and the
other two stay. `Reader.Consistent` is what holds of the three all the same. **The span is
where the token stands, and the cursor stands behind it** with nothing between them but blanks
and the texts that have been rejected since.

One read keeps it, and reading on is all that any call does with a reader. So it holds in every
order of calls, also after calls that have failed and in the middle of a rule; and since every
read is in the log, the tokens looked at are those of the source in order.
-/

namespace Calculator

/-- From byte `start` on, nothing but blanks and texts for each of which there is an error. -/
inductive Rejected (start : Nat) : List Char → List Error → Prop where
  | nil : Rejected start [] []
  | snoc {chars gap text : List Char} {errors : List Error} {e : Error} :
      Rejected start chars errors → (∀ c ∈ gap, isBlank c) →
      Span.outcome ⟨start + byteSize (chars ++ gap), text⟩ = .error e →
      Rejected start (chars ++ gap ++ text) (errors ++ [e])

namespace Reader

/-- The token that is looked at stands behind `front`, and `back` is still to be read. -/
structure Stands (r : Reader) (source : String) (front between back : List Char)
    (rejected : List Error) : Prop where
  source_eq : source.toList = front ++ r.span.text ++ between ++ back
  start_eq : r.span.start = byteSize front
  holds : r.span.Holds front (between ++ back) (.ok r.current)
  cursor : r.cursor.Between (front ++ r.span.text ++ between) back
  rejected : Rejected r.span.stop between rejected

/-- The reads from number `first` on have given `given`, and this is where the reader stands. -/
structure Consistent (source : String) (first : Nat) (given : List (Except Error Token))
    (r : Reader) : Prop where
  /-- No read of the source is left out, and none comes twice. -/
  given_eq : given = (List.range' first given.length).map (outcomeAt source)
  cursor_eq : r.cursor = (Cursor.ofSource source).afterReads (first + given.length)
  /-- The last token that was given is looked at, and what came behind it was rejected. -/
  stands : ∃ before rejected front between back,
    given = before ++ .ok r.current :: rejected.map .error
      ∧ r.Stands source front between back rejected

end Reader

/-! ## The text of a token -/

/-- A lexeme by itself reads as one token. -/
theorem tokenize_lexeme {text : List Char} {t : Token} (hw : Lexeme text)
    (h : reading text = .ok t) : tokenize (String.ofList text) = .ok [t] := by
  rw [tokenize, spans, String.toList_ofList, spansFrom_lexeme hw, List.mapM_cons,
    Span.outcome_eq_ok_iff.mpr h]
  rfl

theorem Span.Holds.tokenize_text {sp : Span} {front back : List Char} {t : Token}
    (h : sp.Holds front back (.ok t)) :
    (t = .endOfInput ∧ sp.text = [] ∧ back = [])
      ∨ tokenize (String.ofList sp.text) = .ok [t] := by
  cases t with
  | endOfInput => exact .inl ⟨rfl, h.1, h.2⟩
  | number v =>
      obtain ⟨hrun, hliteral⟩ := h
      exact .inr (tokenize_lexeme (.digits hrun.numeral) (hrun.numeral.reading.trans hliteral))
  | _ =>
      obtain ⟨op, hop, htext⟩ := h
      rw [htext]
      cases op <;> cases hop
      exact .inr (tokenize_lexeme (.other rfl rfl) rfl)

/-! ## One read -/

namespace Reader

section

variable {source : String} {first : Nat} {given : List (Except Error Token)} {r : Reader}
  {front between back : List Char} {rejected : List Error}

theorem Stands.stop_le (h : r.Stands source front between back rejected) :
    r.span.stop ≤ r.cursor.position := by
  rw [h.cursor.position_eq, Span.stop, h.start_eq, byteSize_append, byteSize_append]
  exact Nat.le_add_right _ _

/-- **A token that is read is looked at**, with nothing between it and the cursor. -/
theorem stands_of_read {c c' : Cursor} {t : Token} (h : c.Between front back)
    (hsource : source.toList = front ++ back) (hread : c.read = (.ok t, c')) :
    ∃ gap rest, Stands ⟨c', t, c'.span⟩ source (front ++ gap) [] rest [] := by
  have htook := h.took
  rw [hread] at htook
  refine ⟨_, _, ⟨?_, htook.start_eq, htook.holds, ?_, .nil⟩⟩
  · conv_lhs => rw [hsource, htook.back_eq]
    simp only [List.append_assoc, List.append_nil]
  · rw [List.append_nil]
    exact htook.between

/-- **A text that is rejected** comes behind those rejected before. -/
theorem Stands.read_error (h : r.Stands source front between back rejected) {e : Error}
    {c : Cursor} (hread : r.cursor.read = (.error e, c)) :
    ∃ between' back',
      Stands { r with cursor := c } source front between' back' (rejected ++ [e]) := by
  obtain ⟨gap, rest, htook⟩ : ∃ gap rest,
      c.Took (.error e) (front ++ r.span.text ++ between) back gap rest := by
    have htook := h.cursor.took
    rw [hread] at htook
    exact ⟨_, _, htook⟩
  have hback : between ++ back = between ++ gap ++ c.span.text ++ rest := by
    rw [htook.back_eq, List.append_assoc, List.append_assoc]
  refine ⟨between ++ gap ++ c.span.text, rest, ?_, h.start_eq, ?_, ?_, ?_⟩
  · rw [h.source_eq, List.append_assoc _ between, hback, ← List.append_assoc]
  · rw [← hback]
    exact h.holds
  · have hbetween := htook.between
    simp only [List.append_assoc] at hbetween ⊢
    exact hbetween
  · refine .snoc h.rejected htook.blank ?_
    have hstart : r.span.stop + byteSize (between ++ gap) = c.span.start := by
      rw [htook.start_eq, Span.stop, h.start_eq]
      simp only [byteSize_append]
      omega
    have houtcome := r.cursor.outcome_span_read
    rw [hread] at houtcome
    rw [hstart]
    exact houtcome

end

/-! ## Reading on -/

section

variable {source : String} {first : Nat} {given : List (Except Error Token)} {r : Reader}

/-- One more read of the source is logged. -/
theorem given_concat (h : given = (List.range' first given.length).map (outcomeAt source)) :
    given ++ [outcomeAt source (first + given.length)]
      = (List.range' first (given ++ [outcomeAt source (first + given.length)]).length).map
          (outcomeAt source) := by
  rw [List.length_append, List.length_singleton, List.range'_1_concat, List.map_append, ← h]
  rfl

/-- A reader that is set on a cursor looks at the next token of the source. -/
theorem consistent_ofCursor (h : ofCursor ((Cursor.ofSource source).afterReads first) = .ok r) :
    r.Consistent source first [.ok r.current] := by
  unfold ofCursor at h
  split at h
  · rename_i t c hread
    cases h
    obtain ⟨gap, rest, hstands⟩ := stands_of_read (between_afterReads source first)
      (covered_append_leftAt source first).symm hread
    have houtcome : outcomeAt source first = .ok t := by rw [outcomeAt, hread]
    refine ⟨?_, ?_, [], [], _, [], rest, rfl, hstands⟩
    · rw [← houtcome]
      rfl
    · rw [List.length_singleton, Cursor.afterReads, hread]
  · cases h

/-- **Every read keeps a reader consistent**, and its span does not move back. -/
theorem Consistent.advance (h : r.Consistent source first given) :
    r.advance.2.Consistent source first (given ++ [r.cursor.read.1])
      ∧ r.span.start ≤ r.advance.2.span.start := by
  obtain ⟨hgiven, hcursor, before, rejected, front, between, back, hlast, hstands⟩ := h
  have houtcome : r.cursor.read.1 = outcomeAt source (first + given.length) := by
    rw [hcursor]
    rfl
  have hgiven' : given ++ [r.cursor.read.1]
      = (List.range' first (given ++ [r.cursor.read.1]).length).map (outcomeAt source) := by
    rw [houtcome]
    exact given_concat hgiven
  have hcursor' : r.advance.2.cursor
      = (Cursor.ofSource source).afterReads (first + (given ++ [r.cursor.read.1]).length) := by
    rw [cursor_advance, hcursor, List.length_append]
    rfl
  rcases hread : r.cursor.read with ⟨e | t, c⟩
  · rw [advance_of_read_error hread] at hcursor' ⊢
    rw [hread] at hgiven' hcursor'
    obtain ⟨between', back', hstands'⟩ := hstands.read_error hread
    refine ⟨⟨hgiven', hcursor', before, rejected ++ [e], front, between', back', ?_, hstands'⟩,
      le_rfl⟩
    rw [hlast, List.map_append, List.append_assoc]
    rfl
  · rw [advance_of_read_ok hread] at hcursor' ⊢
    rw [hread] at hgiven' hcursor'
    obtain ⟨gap, rest, hstands'⟩ := stands_of_read hstands.cursor hstands.source_eq hread
    refine ⟨⟨hgiven', hcursor', given, [], _, [], rest, rfl, hstands'⟩, ?_⟩
    rw [hstands.start_eq, hstands'.start_eq]
    simp only [byteSize_append]
    omega

/-- **Reading on keeps a reader consistent.** -/
theorem Consistent.steps {r' : Reader} {more : List (Except Error Token)}
    (h : r.Consistent source first given) (hsteps : r.Steps more r') :
    r'.Consistent source first (given ++ more) ∧ r.span.start ≤ r'.span.start := by
  induction hsteps generalizing given with
  | refl r =>
      rw [List.append_nil]
      exact ⟨h, le_rfl⟩
  | @step r r' more _ ih =>
      obtain ⟨hnext, hle⟩ := h.advance
      obtain ⟨hlast, hle'⟩ := ih hnext
      rw [List.append_assoc] at hlast
      exact ⟨hlast, hle.trans hle'⟩

end

/-! ## What is looked at -/

section

variable {source : String} {r : Reader} {front between back : List Char} {rejected : List Error}

/-- **The text of the span is that of the token**, which has no text at the end of the source. -/
theorem Stands.tokenize_text (h : r.Stands source front between back rejected) :
    (r.current = .endOfInput ∧ r.span = ⟨source.utf8ByteSize, []⟩)
      ∨ tokenize (String.ofList r.span.text) = .ok [r.current] := by
  rcases h.holds.tokenize_text with ⟨hend, htext, hnothing⟩ | htoken
  · refine .inl ⟨hend, ?_⟩
    have hsource : source.toList = front := by
      rw [h.source_eq, List.append_assoc, htext, hnothing, List.append_nil, List.append_nil]
    rw [← byteSize_toList, hsource, ← h.start_eq, ← htext]
  · exact .inr htoken

/-- A number that is looked at is what its digits read as. -/
theorem Stands.literal_text (h : r.Stands source front between back rejected) {v : Value}
    (hv : r.current = .number v) :
    Numeral r.span.text ∧ literal r.span.text = .ok (.number v) := by
  have hholds := h.holds
  rw [hv] at hholds
  exact ⟨hholds.1.numeral, hholds.2⟩

end

/-- A reader refuses to read past a token of another kind, and nothing changes. -/
theorem consume_of_not_sameKind {r : Reader} {expected : Token}
    (h : r.current.sameKind expected = false) :
    r.consume expected = (.error ⟨.unexpectedToken expected r.current, r.span.start⟩, r) := by
  rw [consume, if_neg (by simp [h])]

/-- Where the next token cannot be read, only the cursor changes. -/
theorem consume_of_read_error {r : Reader} {expected : Token} {e : Error} {c : Cursor}
    (h : r.current.sameKind expected) (hread : r.cursor.read = (.error e, c)) :
    r.consume expected = (.error e, { r with cursor := c }) := by
  rw [consume, if_pos h, advance_of_read_error hread]

end Reader

/-! ## Calls -/

/-- The call is one on a reader, and the reader can be used again. -/
def Call.leavesReader : Call → Bool
  | consume _ | factor | term | expression => true
  | read | next | look | whole => false

/-- The error that came back, where it comes of a read. -/
def Answer.lexicalError? (a : Answer) : Option Error :=
  a.error?.filter fun e => e.cause.isLexical

theorem Answer.lexicalError?_done (outcome : Except Error Unit) :
    (done outcome).lexicalError? = Calculator.lexicalError? outcome := by
  cases outcome <;> rfl

theorem Answer.lexicalError?_value (outcome : Except Error Value) :
    (value outcome).lexicalError? = Calculator.lexicalError? outcome := by
  cases outcome <;> rfl

namespace Session

theorem steps_ofRule {rule : Rule} (hrule : rule.ReadsOn) (r : Reader) :
    ∃ a r' given, some (ofRule rule r) = some (a, looking r') ∧ r.Steps given r'
      ∧ given.filterMap errorOf? = a.lexicalError?.toList := by
  obtain ⟨given, hsteps, herrors⟩ := hrule (r := r) rfl
  exact ⟨_, _, given, rfl, hsteps, by rw [Answer.lexicalError?_value, herrors]⟩

/-- **A call on a reader reads on**, and what cannot be read is what comes back. -/
theorem steps_call {c : Call} (hc : c.leavesReader) (r : Reader) :
    ∃ a r' given, (looking r).call c = some (a, looking r') ∧ r.Steps given r'
      ∧ given.filterMap errorOf? = a.lexicalError?.toList := by
  cases c with
  | consume expected =>
      obtain ⟨given, hsteps, herrors⟩ := r.readsOn_consume expected
      exact ⟨_, _, given, rfl, hsteps, by rw [Answer.lexicalError?_done, herrors]⟩
  | factor => exact steps_ofRule Rule.factor_readsOn r
  | term => exact steps_ofRule Rule.term_readsOn r
  | expression => exact steps_ofRule Rule.expression_readsOn r
  | _ => cases hc

/-- Behind a call on a reader there is one that has read on, unless the call was the last one. -/
theorem closed_or_steps_of_call {r : Reader} {s' : Session} {c : Call} {a : Answer}
    (h : (looking r).call c = some (a, s')) :
    s' = closed ∨ ∃ r' given, s' = looking r' ∧ r.Steps given r' := by
  by_cases hc : c.leavesReader
  · obtain ⟨a', r', given, hcall, hsteps, _⟩ := steps_call hc r
    rw [h] at hcall
    cases hcall
    exact .inr ⟨r', given, rfl, hsteps⟩
  · cases c with
    | whole =>
        cases h
        exact .inl rfl
    | consume _ | factor | term | expression => exact absurd rfl hc
    | read | next | look => cases h

/-- **So does a run of such calls**, in whatever order they come and whatever fails. -/
theorem steps_run {calls : List Call} (h : ∀ call ∈ calls, call.leavesReader) (r : Reader) :
    ∃ answers given r', (looking r).run calls = some (answers, looking r') ∧ r.Steps given r'
      ∧ given.filterMap errorOf? = answers.filterMap Answer.lexicalError? := by
  induction calls generalizing r with
  | nil => exact ⟨[], [], r, rfl, .refl r, rfl⟩
  | cons c cs ih =>
      obtain ⟨hc, hcs⟩ := List.forall_mem_cons.mp h
      obtain ⟨a, r₁, given₁, hcall, hsteps₁, herrors₁⟩ := steps_call hc r
      obtain ⟨answers, given₂, r₂, hrun, hsteps₂, herrors₂⟩ := ih hcs r₁
      refine ⟨a :: answers, given₁ ++ given₂, r₂, run_cons hcall hrun, hsteps₁.trans hsteps₂, ?_⟩
      rw [List.filterMap_append, herrors₁, herrors₂, List.filterMap_cons]
      cases a.lexicalError? <;> rfl

end Session

/--
**A reader stays consistent**, whatever is called on it and whatever fails. Wherever reading on
has led it, the span that it keeps is that of the token it looks at, the cursor stands behind
that with nothing but rejected text between them, and the log holds the reads of the source one
after the other. Being refused changes nothing. And all that calls do from there on is to read
on: the span never moves back, and the errors of the log are those that came back.
-/
theorem consistent_of_run {source : String} {skip : Nat} {r₀ : Reader}
    (h : Reader.ofCursor ((Cursor.ofSource source).afterReads skip) = .ok r₀) :
    ∀ given r, r₀.Steps given r →
      r.Consistent source skip (.ok r₀.current :: given)
        ∧ (r.current = .endOfInput ∧ r.span = ⟨source.utf8ByteSize, []⟩
          ∨ tokenize (String.ofList r.span.text) = .ok [r.current])
        ∧ (∀ v, r.current = .number v →
          Numeral r.span.text ∧ literal r.span.text = .ok (.number v))
        ∧ r.span.stop ≤ r.cursor.position
        ∧ (∀ more r', r.Steps more r' → r.span.start ≤ r'.span.start)
        ∧ (∀ expected, r.current.sameKind expected = false →
          r.consume expected
            = (.error ⟨.unexpectedToken expected r.current, r.span.start⟩, r))
        ∧ (∀ expected e c, r.current.sameKind expected → r.cursor.read = (.error e, c) →
          r.consume expected = (.error e, { r with cursor := c }))
        ∧ ∀ calls, (∀ call ∈ calls, call.leavesReader) →
          ∃ answers more r', (Session.looking r).run calls = some (answers, .looking r')
            ∧ r.Steps more r' ∧ r.span.start ≤ r'.span.start
            ∧ more.filterMap errorOf? = answers.filterMap Answer.lexicalError? := by
  intro given r hsteps
  have hconsistent := ((Reader.consistent_ofCursor h).steps hsteps).1
  have hforward : ∀ more r', r.Steps more r' → r.span.start ≤ r'.span.start :=
    fun more r' hmore => (hconsistent.steps hmore).2
  obtain ⟨before, rejected, front, between, back, -, hstands⟩ := hconsistent.stands
  refine ⟨hconsistent, hstands.tokenize_text, fun v => hstands.literal_text, hstands.stop_le,
    hforward, fun expected => Reader.consume_of_not_sameKind,
    fun expected e c => Reader.consume_of_read_error, fun calls hcalls => ?_⟩
  obtain ⟨answers, more, r', hrun, hmore, herrors⟩ := Session.steps_run hcalls r
  exact ⟨answers, more, r', hrun, hmore, hforward more r' hmore, herrors⟩

/--
An error in the middle of a factor, a refusal, and a token that is read behind them; and from
there one more call, that reads the end.
-/
theorem consistent_of_run_behind_error :
    ∃ r₀, Reader.ofCursor ((Cursor.ofSource "9 -7 ? *").afterReads 1) = .ok r₀
      ∧ r₀.current = .minus
      ∧ (∀ call ∈ [Call.factor, .consume .plus, .consume (.number (.integer 0))],
        call.leavesReader)
      ∧ ∃ answers given r,
        (Session.looking r₀).run [.factor, .consume .plus, .consume (.number (.integer 0))]
            = some (answers, .looking r)
          ∧ answers.map Answer.error?
            = [some ⟨.invalidCharacter '?', 5⟩,
              some ⟨.unexpectedToken .plus (.number (.integer 7)), 3⟩, none]
          ∧ r₀.Steps given r
          ∧ given.filterMap errorOf? = [⟨.invalidCharacter '?', 5⟩]
          ∧ r.current = .star
          ∧ r.Consistent "9 -7 ? *" 1 (.ok .minus :: given)
          ∧ r.span.stop ≤ r.cursor.position
          ∧ ∃ answers' more r', (Session.looking r).run [.consume .star]
              = some (answers', .looking r')
            ∧ answers'.map Answer.error? = [none]
            ∧ r'.current = .endOfInput
            ∧ r.Steps more r'
            ∧ more.filterMap errorOf? = []
            ∧ r.span.start ≤ r'.span.start := by
  have hcalls : ∀ call ∈ [Call.factor, .consume .plus, .consume (.number (.integer 0))],
      call.leavesReader := by simp [Call.leavesReader]
  have hcall : ∀ call ∈ [Call.consume .star], call.leavesReader := by simp [Call.leavesReader]
  have hshown : (Reader.ofCursor ((Cursor.ofSource "9 -7 ? *").afterReads 1)).toOption.map
      (fun r => (r.current, ((Session.looking r).run [.factor, .consume .plus,
        .consume (.number (.integer 0))]).map fun result =>
          (result.1.map Answer.error?, result.2.current?)))
      = some (.minus, some ([some ⟨.invalidCharacter '?', 5⟩,
          some ⟨.unexpectedToken .plus (.number (.integer 7)), 3⟩, none], some .star)) := by
    decide +kernel
  have hshown' : (Reader.ofCursor ((Cursor.ofSource "9 -7 ? *").afterReads 1)).toOption.map
      (fun r => ((Session.looking r).run [.factor, .consume .plus,
        .consume (.number (.integer 0))]).map fun result =>
          (result.2.run [.consume .star]).map fun result =>
            (result.1.map Answer.error?, result.2.current?))
      = some (some (some ([none], some .endOfInput))) := by
    decide +kernel
  cases h : Reader.ofCursor ((Cursor.ofSource "9 -7 ? *").afterReads 1) with
  | error e =>
      rw [h] at hshown
      cases hshown
  | ok r₀ =>
      obtain ⟨-, -, -, -, -, -, -, hruns⟩ := consistent_of_run h [] r₀ (.refl r₀)
      obtain ⟨answers, given, r, hrun, hsteps, -, herrors⟩ := hruns _ hcalls
      obtain ⟨hconsistent, -, -, hstop, -, -, -, hruns'⟩ := consistent_of_run h given r hsteps
      obtain ⟨answers', more, r', hrun', hmore, hle, herrors'⟩ := hruns' _ hcall
      simp only [h, Except.toOption, Option.map_some, hrun, hrun', Session.current?,
        Option.some.injEq, Prod.mk.injEq] at hshown hshown'
      obtain ⟨hcurrent, hanswers, hlast⟩ := hshown
      obtain ⟨hanswers', hlast'⟩ := hshown'
      have hlexical (answers : List Answer) : answers.filterMap Answer.lexicalError?
          = (answers.map Answer.error?).filterMap (Option.filter fun e => e.cause.isLexical) :=
        List.filterMap_map.symm
      rw [hlexical, hanswers] at herrors
      rw [hlexical, hanswers'] at herrors'
      exact ⟨r₀, rfl, hcurrent, hcalls, answers, given, r, hrun, hanswers, hsteps, herrors,
        hlast, hcurrent ▸ hconsistent, hstop, answers', more, r', hrun', hanswers', hlast', hmore,
        herrors', hle⟩

end Calculator
