import Calculator.Proofs.Expression.Finite
import Calculator.Proofs.Session.Calls

/-!
# Nothing infinite gets out

Whatever is called in whatever order, and whatever went wrong before, every value and every
number that a session lets out is finite: the values that come back, the tokens that come
back, the token that is looked at and the ones that errors carry.
-/

namespace Calculator

namespace Answer

/-- The value that came back. -/
def value? : Answer → Option Value
  | value (.ok v) => some v
  | _ => none

/-- The token that came back. -/
def token? : Answer → Option Token
  | token (.ok t) => some t
  | given (some (.ok t)) => some t
  | _ => none

/-- The error that came back. -/
def error? : Answer → Option Error
  | token (.error e) => some e
  | given (some (.error e)) => some e
  | done (.error e) => some e
  | value (.error e) => some e
  | _ => none

/-- The token came back, or an error that was found at it. -/
def Shows (a : Answer) (t : Token) : Prop :=
  a.token? = some t ∨ ∃ e, a.error? = some e ∧ e.cause.found? = some t

/-- What comes back is finite, and has been read if it is a token. -/
def IsSound : Answer → Prop
  | token outcome => Sound Token.IsLexed outcome
  | given outcome => ∀ o ∈ outcome, Sound Token.IsLexed o
  | done outcome => Sound (fun _ => True) outcome
  | value outcome => Sound Value.IsFinite outcome

theorem IsSound.isFinite {a : Answer} (h : a.IsSound) {v : Value} (hv : a.value? = some v) :
    v.IsFinite := by
  cases a with
  | value outcome =>
      cases outcome with
      | ok w => cases hv; exact h
      | error e => cases hv
  | _ => cases hv

theorem IsSound.isLexed_token {a : Answer} (h : a.IsSound) {t : Token} (ht : a.token? = some t) :
    t.IsLexed := by
  cases a with
  | token outcome =>
      cases outcome with
      | ok u => cases ht; exact h
      | error e => cases ht
  | given outcome =>
      cases outcome with
      | none => cases ht
      | some outcome =>
          cases outcome with
          | ok u => cases ht; exact h _ rfl
          | error e => cases ht
  | _ => cases ht

theorem IsSound.isLexed_error {a : Answer} (h : a.IsSound) {e : Error} (he : a.error? = some e) :
    e.IsLexed := by
  cases a with
  | token outcome =>
      cases outcome with
      | ok u => cases he
      | error e' => cases he; exact h
  | given outcome =>
      cases outcome with
      | none => cases he
      | some outcome =>
          cases outcome with
          | ok u => cases he
          | error e' => cases he; exact h _ rfl
  | done outcome =>
      cases outcome with
      | ok u => cases he
      | error e' => cases he; exact h
  | value outcome =>
      cases outcome with
      | ok u => cases he
      | error e' => cases he; exact h

theorem IsSound.isLexed {a : Answer} (h : a.IsSound) {t : Token} (ht : a.Shows t) : t.IsLexed := by
  rcases ht with ht | ⟨e, he, ht⟩
  · exact h.isLexed_token ht
  · exact h.isLexed_error he t ht

end Answer

theorem Cursor.sound_next? (c : Cursor) : ∀ o ∈ c.next?.1, Sound Token.IsLexed o := by
  have hread := c.sound_read
  intro o ho
  unfold next? at ho
  split at ho
  · cases ho
  · split at ho <;> rename_i heq <;> rw [heq] at hread <;> cases ho
    · exact hread
    · exact hread

namespace Session

/-- What is looked at has been read. -/
def IsSound (s : Session) : Prop := ∀ t, s.current? = some t → t.IsLexed

theorem isSound_looking {r : Reader} : (looking r).IsSound ↔ r.current.IsLexed := by
  refine ⟨fun h => h _ rfl, fun h t ht => ?_⟩
  cases ht
  exact h

theorem isSound_ofRule {rule : Rule} (hrule : rule.GivesFinite) {r : Reader}
    (h : (looking r).IsSound) : (ofRule rule r).1.IsSound ∧ (ofRule rule r).2.IsSound := by
  obtain ⟨houtcome, hcurrent⟩ := hrule (isSound_looking.mp h) rfl
  exact ⟨houtcome, isSound_looking.mpr hcurrent⟩

/-- **Every call keeps it**, and what comes back is finite. -/
theorem isSound_call {s s' : Session} {c : Call} {a : Answer} (hs : s.IsSound)
    (h : s.call c = some (a, s')) : a.IsSound ∧ s'.IsSound := by
  unfold call at h
  split at h
  case h_1 c =>
    cases h
    exact ⟨c.sound_read, nofun⟩
  case h_2 c =>
    cases h
    exact ⟨c.sound_next?, nofun⟩
  case h_3 c =>
    have hlook := Reader.sound_ofCursor c
    split at h <;> rename_i heq <;> rw [heq] at hlook <;> cases h
    · exact ⟨hlook, isSound_looking.mpr hlook⟩
    · exact ⟨hlook, nofun⟩
  case h_4 r expected =>
    cases h
    obtain ⟨houtcome, hcurrent⟩ := Reader.sound_consume (isSound_looking.mp hs) rfl
    exact ⟨houtcome, isSound_looking.mpr hcurrent⟩
  case h_5 r =>
    cases h
    exact isSound_ofRule Rule.factor_givesFinite hs
  case h_6 r =>
    cases h
    exact isSound_ofRule Rule.term_givesFinite hs
  case h_7 r =>
    cases h
    exact isSound_ofRule Rule.expression_givesFinite hs
  case h_8 r =>
    cases h
    exact ⟨Reader.sound_whole (isSound_looking.mp hs), nofun⟩
  case h_9 => cases h

end Session

/-- **Nothing infinite gets out**, of a session or of an operation. -/
theorem finite_of_run :
    (∀ (source : String) (calls : List Call) (answers : List Answer) (s : Session),
      (Session.start source).run calls = some (answers, s) →
        (∀ a ∈ answers, ∀ v, a.value? = some v → v.IsFinite ∧ v.equals v)
        ∧ ∀ v, (∃ a ∈ answers, a.Shows (.number v)) ∨ s.current? = some (.number v) →
          v.IsLexed ∧ v.IsFinite ∧ v.equals v)
    ∧ ∀ (op : Operator) (position : Nat) (l r v : Value), op.applyAt position l r = .ok v →
        v.IsFinite ∧ v.equals v := by
  refine ⟨fun source calls answers s h => ?_, fun op position l r v h => ?_⟩
  · have hstart : (Session.start source).IsSound := nofun
    obtain ⟨hanswers, hs⟩ :=
      Session.invariant_run (P := Answer.IsSound) Session.isSound_call hstart h
    refine ⟨fun a ha v hv => ?_, fun v hv => ?_⟩
    · have hfinite := (hanswers a ha).isFinite hv
      exact ⟨hfinite, hfinite.equals_self⟩
    · have hlexed : v.IsLexed := by
        rcases hv with ⟨a, ha, hshows⟩ | hcurrent
        · exact (hanswers a ha).isLexed hshows
        · exact hs _ hcurrent
      exact ⟨hlexed, hlexed.isFinite, hlexed.isFinite.equals_self⟩
  · have hsound := Rule.applyAt_sound op position l r
    rw [h] at hsound
    exact ⟨hsound, Value.IsFinite.equals_self hsound⟩

/-- A reader that has been refused something still looks at a number that was read. -/
theorem finite_of_run_refused :
    ∃ answers s,
      (Session.start "9223372036854775808 7").run [.look, .expression, .consume .plus]
          = some (answers, s)
        ∧ answers.map Answer.value?
          = [none, some (.real (.finite false Binary64.Magnitude.integerLimit)), none]
        ∧ answers.map Answer.error?
          = [none, none, some ⟨.unexpectedToken .plus (.number (.integer 7)), 20⟩]
        ∧ (∀ a ∈ answers, ∀ v, a.value? = some v → v.IsFinite ∧ v.equals v)
        ∧ ∀ v, (∃ a ∈ answers, a.Shows (.number v)) ∨ s.current? = some (.number v) →
          v.IsLexed ∧ v.IsFinite ∧ v.equals v := by
  have hshown : ((Session.start "9223372036854775808 7").run
      [.look, .expression, .consume .plus]).map
        (fun result => (result.1.map Answer.value?, result.1.map Answer.error?))
      = some ([none, some (.real (.finite false Binary64.Magnitude.integerLimit)), none],
        [none, none, some ⟨.unexpectedToken .plus (.number (.integer 7)), 20⟩]) := by
    decide +kernel
  obtain ⟨⟨answers, s⟩, hrun, hshown⟩ := Option.map_eq_some_iff.mp hshown
  obtain ⟨hvalues, herrors⟩ := Prod.mk.inj hshown
  obtain ⟨hfinite, hlexed⟩ := finite_of_run.1 _ _ _ _ hrun
  exact ⟨answers, s, hrun, hvalues, herrors, hfinite, hlexed⟩

end Calculator
