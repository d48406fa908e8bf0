import Calculator.Proofs.CommandLine.Line
import Calculator.Proofs.Decimal.Layout
import Calculator.Proofs.Evaluate.Blanks
import Calculator.Proofs.Evaluate.Position
import Calculator.Proofs.Source.Tiling

/-!
# An expression typed and an expression given

An expression can be given as an argument, or typed as a line of input when it is asked for.
**The answer is the same**, apart from the prompt, and it is all or nothing: what was asked
for, or one line that says what is wrong.

The two differ in one thing. The carriage returns at the end of a line are not part of the
expression, and in an argument they are. There they are blanks behind everything else, so the
two sources are in step, and since no message says where an error stands the reports are one
and the same.
-/

namespace Calculator

/-! ## Sources in step -/

section

variable {f : Nat → Nat} {source source' : String}

/-- **Reports leave the places out**, so sources in step are reported on alike. -/
theorem Report.ofExpression_inStep (mode : Mode)
    (h : (Cursor.ofSource source).InStep f (Cursor.ofSource source')) :
    ofExpression mode source' = ofExpression mode source := by
  cases mode with
  | tokens =>
      rw [ofExpression, ofExpression, tokenize_inStep h]
      cases tokenize source <;> rfl
  | check =>
      rw [ofExpression, ofExpression, check_inStep h]
      cases check source <;> rfl
  | evaluate =>
      rw [ofExpression, ofExpression, evaluate_inStep h]
      cases evaluate source <;> rfl

end

/-- Blanks behind an expression change nothing in the report. -/
theorem Report.ofExpression_append_blanks (mode : Mode) {text blanks : String}
    (hb : ∀ c ∈ blanks.toList, isBlank c) :
    ofExpression mode (text ++ blanks) = ofExpression mode text := by
  have hstep : (Cursor.ofSource (text ++ "")).InStep _ (Cursor.ofSource (text ++ blanks ++ "")) :=
    inStep_insert_blanks hb (apart_nil_right text.toList)
  rw [String.append_empty, String.append_empty] at hstep
  exact ofExpression_inStep mode hstep

/-! ## Messages -/

/-- The text holds no newline. -/
def OneLine (text : List Char) : Prop := '\n' ∉ text

instance (text : List Char) : Decidable (OneLine text) := inferInstanceAs (Decidable ('\n' ∉ text))

theorem OneLine.append {as bs : List Char} (ha : OneLine as) (hb : OneLine bs) :
    OneLine (as ++ bs) := by
  intro h
  rcases List.mem_append.mp h with h | h
  · exact ha h
  · exact hb h

theorem oneLine_of_isDigit {digits : List Char} (h : ∀ c ∈ digits, c.isDigit) : OneLine digits :=
  fun hc => by cases h _ hc

theorem oneLine_toDigits (n : Nat) : OneLine (Nat.toDigits 10 n) :=
  oneLine_of_isDigit fun _ hc => Nat.isDigit_of_mem_toDigits (by decide) (by decide) hc

theorem Decimal.oneLine_ticksText (ticks : Nat) : OneLine (ticksText ticks) := by
  refine (oneLine_toDigits _).append ?_
  unfold fractionText
  split
  · exact List.not_mem_nil
  · have hpoint : OneLine ['.'] := by decide
    exact hpoint.append (oneLine_of_isDigit fun _ hc => isDigit_of_mem_fraction hc)

theorem Decimal.oneLine_text (x : Binary64) : OneLine (text x) := by
  cases x with
  | nan => decide
  | infinity negative => cases negative <;> decide
  | finite negative m =>
      refine OneLine.append ?_ (oneLine_ticksText _)
      cases negative <;> decide

theorem Value.oneLine_text (v : Value) : OneLine v.text.toList := by
  cases v with
  | integer n =>
      rw [text, String.toList_append, Nat.toList_repr]
      refine OneLine.append ?_ (oneLine_toDigits _)
      split <;> decide
  | real x =>
      rw [text, String.toList_ofList]
      exact Decimal.oneLine_text x

theorem Token.oneLine_text (t : Token) : OneLine t.text.toList := by
  cases t with
  | number v =>
      rw [text, String.toList_append]
      exact OneLine.append (by decide) v.oneLine_text
  | _ => decide

/-- **A message is one line**, if what it calls invalid is no newline. -/
theorem Cause.oneLine_message {cause : Cause} (h : cause ≠ .invalidCharacter '\n') :
    OneLine cause.message.toList := by
  unfold message
  cases cause with
  | invalidCharacter c =>
      have hc : OneLine [c] := fun hmem => h (by rw [List.mem_singleton.mp hmem])
      dsimp only
      rw [String.toList_append, String.toList_append, String.toList_singleton]
      exact (OneLine.append (by decide +kernel) hc).append (by decide +kernel)
  | unexpectedToken expected found =>
      dsimp only
      rw [String.toList_append, String.toList_append, String.toList_append]
      exact ((OneLine.append (by decide +kernel) expected.oneLine_text).append
        (by decide +kernel)).append found.oneLine_text
  | unexpectedTokenInFactor found =>
      dsimp only
      rw [String.toList_append]
      exact OneLine.append (by decide +kernel) found.oneLine_text
  | trailingInput found =>
      dsimp only
      rw [String.toList_append]
      exact OneLine.append (by decide +kernel) found.oneLine_text
  | _ => decide +kernel

/-! ## All or nothing -/

theorem ne_newline_of_evaluate {source : String} {e : Error} (h : evaluate source = .error e) :
    e.cause ≠ .invalidCharacter '\n' := by
  have hends := ends_evaluate source
  rw [h] at hends
  cases hends with
  | error hitems hreads hstops =>
      obtain ⟨_, _, _, front, back, _, _, _, hpoints⟩ := hstops.exists_cut hitems hreads
      intro hcause
      rw [hcause] at hpoints
      exact absurd hpoints.2.1 (by decide)

/-- What cannot be evaluated does not pass the check either, for the same reason. -/
theorem check_eq_error_iff {source : String} {e : Error} :
    check source = .error e ↔ evaluate source = .error e := by
  unfold check
  cases evaluate source <;> simp

theorem exists_of_mapM_outcome {sps : List Span} {e : Error}
    (h : sps.mapM Span.outcome = .error e) : ∃ sp ∈ sps, sp.outcome = .error e := by
  induction sps with
  | nil => cases h
  | cons sp sps ih =>
      rw [List.mapM_cons] at h
      cases hsp : sp.outcome with
      | error e' =>
          rw [hsp] at h
          cases h
          exact ⟨sp, List.mem_cons_self, hsp⟩
      | ok t =>
          rw [hsp] at h
          cases hrest : sps.mapM Span.outcome with
          | error e' =>
              rw [hrest] at h
              cases h
              obtain ⟨sp', hmem, hsp'⟩ := ih hrest
              exact ⟨sp', List.mem_cons_of_mem sp hmem, hsp'⟩
          | ok ts =>
              rw [hrest] at h
              cases h

theorem ne_newline_of_tokenize {source : String} {e : Error} (h : tokenize source = .error e) :
    e.cause ≠ .invalidCharacter '\n' := by
  obtain ⟨sp, hmem, hsp⟩ := exists_of_mapM_outcome h
  obtain ⟨cause, hcause, rfl⟩ := Span.outcome_eq_error_iff.mp hsp
  rcases reading_eq_error hcause with rfl | ⟨c, rest, htext, rfl⟩
  · nofun
  · -- what makes a span is not blank
    have hblank := (lexeme_of_mem_spans hmem).isBlank_eq_false c (by simp [htext])
    rintro hnewline
    cases hnewline
    exact absurd hblank (by decide)

namespace Report

/-- The same report with something written in front of it. -/
def behind (front : String) (r : Report) : Report := { r with stdout := front ++ r.stdout }

/-- Either there is nothing to complain of, or nothing but `front` is written, and one line on
standard error says what is wrong. -/
def AllOrNothing (front : String) (r : Report) : Prop :=
  (r.status = 0 ∧ r.stderr = "")
    ∨ (r.status = 1 ∧ r.stdout = front
      ∧ ∃ message : String, r.stderr = "Error: " ++ message ++ "\n" ∧ OneLine message.toList)

theorem AllOrNothing.behind {r : Report} (h : r.AllOrNothing "") (front : String) :
    (r.behind front).AllOrNothing front := by
  rcases h with hsuccess | ⟨hstatus, hstdout, hmessage⟩
  · exact .inl hsuccess
  · refine .inr ⟨hstatus, ?_, hmessage⟩
    rw [Report.behind, hstdout, String.append_empty]

theorem allOrNothing_ofError {e : Error} (h : e.cause ≠ .invalidCharacter '\n') :
    (ofError e).AllOrNothing "" :=
  .inr ⟨rfl, rfl, e.message, rfl, Cause.oneLine_message h⟩

/-- **A report on an expression is all or nothing.** -/
theorem allOrNothing_ofExpression (mode : Mode) (source : String) :
    (ofExpression mode source).AllOrNothing "" := by
  unfold ofExpression
  cases mode with
  | tokens =>
      dsimp only
      split
      · exact .inl ⟨rfl, rfl⟩
      · rename_i e h
        exact allOrNothing_ofError (ne_newline_of_tokenize h)
  | check =>
      dsimp only
      split
      · exact .inl ⟨rfl, rfl⟩
      · rename_i e h
        exact allOrNothing_ofError (ne_newline_of_evaluate (check_eq_error_iff.mp h))
  | evaluate =>
      dsimp only
      split
      · exact .inl ⟨rfl, rfl⟩
      · rename_i e h
        exact allOrNothing_ofError (ne_newline_of_evaluate h)

end Report

/-! ## Typed and given -/

/-- The arguments that ask for a mode and give no expression. -/
def Mode.arguments : Mode → List String
  | evaluate => []
  | check => ["--check"]
  | tokens => ["--tokens"]

theorem Request.ofArguments_arguments (mode : Mode) :
    ofArguments mode.arguments = .run mode none := by
  cases mode <;> rfl

theorem Request.ofArguments_given (mode : Mode) (line : String) :
    ofArguments (mode.arguments ++ ["--", line]) = .run mode (some line) := by
  cases mode <;> rfl

/--
**An expression is answered alike, typed or given**, except that the prompt comes first where
it is typed, and either answer is all or nothing. What is typed behind the line does not matter,
and neither does what stands on an input that is not asked for.
-/
theorem ofRun_typed {line : String} (hline : '\n' ∉ line.toList) {typed : ByteArray}
    (htyped : BeginsWithLine typed line) (mode : Mode) (input : ByteArray) :
    Report.ofRun mode.arguments typed
        = (Report.ofRun (mode.arguments ++ ["--", line]) input).behind Report.prompt
      ∧ (Report.ofRun (mode.arguments ++ ["--", line]) input).AllOrNothing ""
      ∧ (Report.ofRun mode.arguments typed).AllOrNothing Report.prompt := by
  have hgiven : Report.ofRun (mode.arguments ++ ["--", line]) input
      = Report.ofExpression mode line := by
    rw [Report.ofRun, Request.ofArguments_given]
  have hrun : Report.ofRun mode.arguments typed
      = (Report.ofExpression mode line).behind Report.prompt := by
    obtain ⟨text, blanks, hsplit, hblanks, hfirst⟩ := firstLine?_of_beginsWithLine htyped hline
    rw [Report.ofRun, Request.ofArguments_arguments, hsplit,
      Report.ofExpression_append_blanks mode hblanks]
    dsimp only
    rw [Report.ofInput, hfirst]
    rfl
  have hall := Report.allOrNothing_ofExpression mode line
  rw [hgiven, hrun]
  exact ⟨rfl, hall, hall.behind _⟩

/-- No token is listed if one cannot be read, and the bytes behind the line need not be UTF-8. -/
theorem ofRun_typed_tokens :
    '\n' ∉ "12 (\r\r".toList
      ∧ BeginsWithLine ("12 (\r\r".toUTF8 ++ "\n".toUTF8 ++ ⟨#[0xff]⟩) "12 (\r\r"
      ∧ Report.ofRun ["--tokens", "--", "12 (\r\r"] .empty
        = { status := 1, stdout := "", stderr := "Error: Invalid character '('\n" }
      ∧ Report.ofRun ["--tokens"] ("12 (\r\r".toUTF8 ++ "\n".toUTF8 ++ ⟨#[0xff]⟩)
        = { status := 1, stdout := Report.prompt, stderr := "Error: Invalid character '('\n" } := by
  have hline : '\n' ∉ "12 (\r\r".toList := by decide +kernel
  have htyped : BeginsWithLine ("12 (\r\r".toUTF8 ++ "\n".toUTF8 ++ ⟨#[0xff]⟩) "12 (\r\r" :=
    .inr ⟨_, rfl⟩
  have hgiven : Report.ofRun ["--tokens", "--", "12 (\r\r"] .empty
      = { status := 1, stdout := "", stderr := "Error: Invalid character '('\n" } := by
    decide +kernel
  obtain ⟨hagree, -, -⟩ := ofRun_typed hline htyped .tokens .empty
  refine ⟨hline, htyped, hgiven, hagree.trans ?_⟩
  rw [Mode.arguments, List.cons_append, List.nil_append, hgiven]
  rfl

end Calculator
