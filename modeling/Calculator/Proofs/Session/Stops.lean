import Calculator.Proofs.Expression.Count
import Calculator.Proofs.Session.Faithful
import Calculator.Proofs.Session.Middle

/-!
# Every rule stops within the input

A rule may be called on any reader that a session comes to, behind calls that failed, and with a
cursor that is ahead of the token looked at because something between them could not be read.
What the rule can still read is in front of the cursor all the same. **It reads at most once for
each byte there, and once more**: every read takes the cursor on by at least a byte, or it fails
and so does the rule, or it comes to the end of input, and there the rule goes no further.

Where the cursor stands in the source is an invariant of the session, and how often a rule reads
is what there is less to read afterwards; so all that remains is to compare the spans in front of
the cursor with the bytes.
-/

namespace Calculator

/-- The cursor stands somewhere in the source. -/
def Cursor.StandsIn (source : String) (c : Cursor) : Prop :=
  ∃ front back, front ++ back = source.toList ∧ c.Between front back

/-- So does the cursor of whatever calls can be made on. -/
def Session.Within (source : String) (s : Session) : Prop :=
  s.StandsIn source ∧ ∀ r, s.reader? = some r → r.cursor.StandsIn source

/--
What each of the reads does that the rule makes on the reader. With a token the cursor comes
further; an error is the last read, and the one that the rule gives; and the end of input is the
last one as well, and looked at from then on.
-/
def Rule.Progresses (rule : Rule) (r : Reader) (given : List (Except Error Token)) : Prop :=
  ∀ before item after, given = before ++ item :: after →
    ∃ r₁, r.Steps before r₁ ∧ r₁.cursor.read.1 = item
      ∧ match item with
        | .error e => after = [] ∧ (rule.run r).1 = .error e
        | .ok .endOfInput => after = [] ∧ (rule.run r).2.current = .endOfInput
        | .ok _ => r₁.cursor.position < r₁.cursor.read.2.position

/-! ## In front of the cursor -/

/-- Every span takes at least a character. -/
theorem length_spansFrom_le (start : Nat) (chars : List Char) :
    (spansFrom start chars).length ≤ chars.length := by
  induction chars using chars_induction generalizing start with
  | nil =>
      rw [spansFrom_nil]
      exact Nat.le_refl _
  | blank c rest hb ih =>
      rw [spansFrom_blank hb]
      exact Nat.le_succ_of_le (ih _)
  | run digits rest hd hrest ih =>
      have hpos := List.length_pos_iff.mpr hd.ne_nil
      have hle := ih (start + byteSize digits)
      rw [spansFrom_run hd hrest, List.length_cons, List.length_append]
      omega
  | other c rest hb hd ih =>
      rw [spansFrom_other hb hd]
      exact Nat.succ_le_succ (ih _)

namespace Cursor

variable {source : String} {c : Cursor}

theorem StandsIn.read (h : c.StandsIn source) : c.read.2.StandsIn source := by
  obtain ⟨front, back, heq, hc⟩ := h
  obtain ⟨front', back', heq', hc'⟩ := hc.read
  exact ⟨front', back', heq'.trans heq, hc'⟩

/-- **In front of the cursor there are at least as many bytes as spans.** -/
theorem StandsIn.pending_le (h : c.StandsIn source) :
    c.position ≤ source.utf8ByteSize
      ∧ c.pending.length ≤ source.utf8ByteSize - c.position := by
  obtain ⟨front, back, heq, hc⟩ := h
  have hsize : source.utf8ByteSize = c.position + byteSize back := by
    rw [← byteSize_toList, ← heq, byteSize_append, hc.position_eq]
  have hspans := length_spansFrom_le (byteSize front) back
  have hbytes := length_le_byteSize back
  rw [hc.pending_eq, hsize]
  omega

/-- **A read that does not come to the end of input** takes the cursor on. -/
theorem StandsIn.position_lt_read (h : c.StandsIn source) (hne : c.read.1 ≠ .ok .endOfInput) :
    c.position < c.read.2.position := by
  obtain ⟨front, back, -, hc⟩ := h
  have htook := hc.took
  have hpos := List.length_pos_iff.mpr (htook.holds.text_ne_nil hne)
  have hbytes := length_le_byteSize c.read.2.span.text
  rw [hc.position_eq, htook.between.position_eq, byteSize_append, byteSize_append]
  omega

/-- Reading on leaves it in the source. -/
theorem StandsIn.steps {r r' : Reader} {given : List (Except Error Token)}
    (h : r.cursor.StandsIn source) (hsteps : r.Steps given r') : r'.cursor.StandsIn source := by
  induction hsteps with
  | refl r => exact h
  | step _ ih => exact ih (Reader.cursor_advance _ ▸ h.read)

end Cursor

/-! ## Sessions -/

namespace Session

variable {source : String}

theorem within_start (source : String) : (start source).Within source :=
  ⟨⟨[], source.toList, rfl, Cursor.between_ofSource source⟩, nofun⟩

/-- A reader that is set on a cursor has read once. -/
theorem within_look {c : Cursor} {s' : Session} {a : Answer} (hc : c.StandsIn source)
    (h : (reading c).call .look = some (a, s')) {r : Reader} (hr : s'.reader? = some r) :
    r.cursor.StandsIn source := by
  rw [reader?_eq_some_iff] at hr
  subst hr
  have hread := hc.read
  rw [call, Reader.ofCursor] at h
  rcases hout : c.read with ⟨e | t, c'⟩ <;> rw [hout] at h hread <;> cases h
  exact hread

/-- **Every call leaves the cursor in the source.** -/
theorem within_call {s s' : Session} {c : Call} {a : Answer} (hs : s.Within source)
    (h : s.call c = some (a, s')) : s'.Within source := by
  refine ⟨standsIn_call hs.1 h, fun r' hr' => ?_⟩
  cases s with
  | reading cur =>
      cases c with
      | look => exact within_look hs.1 h hr'
      | _ => cases h <;> cases hr'
  | looking r =>
      rcases closed_or_steps_of_call h with rfl | ⟨r₁, given, rfl, hsteps⟩
      · cases hr'
      · cases hr'
        exact (hs.2 r rfl).steps hsteps
  | closed => cases c <;> cases h

theorem standsIn_of_run {calls : List Call} {answers : List Answer} {r : Reader}
    (h : (start source).run calls = some (answers, looking r)) : r.cursor.StandsIn source :=
  (invariant_run (P := fun _ => True) (fun hs hcall => ⟨trivial, within_call hs hcall⟩)
    (within_start source) h).2.2 r rfl

end Session

/-! ## The rules -/

theorem eq_error_of_lexicalError? {α : Type} {outcome : Except Error α} {e : Error}
    (h : lexicalError? outcome = some e) : outcome = .error e := by
  cases outcome with
  | ok a => cases h
  | error e' => rw [Option.some.inj (Option.filter_eq_some_iff.mp h).1]

/-- **Each read gets the rule on**, or it is the last. -/
theorem Rule.progresses_of_goesOn {source : String} {rule : Rule} {r : Reader}
    {given : List (Except Error Token)} (hr : r.cursor.StandsIn source)
    (h : r.GoesOn given (lexicalError? (rule.run r).1) (rule.run r).2) :
    rule.Progresses r given := by
  rintro before item after rfl
  obtain ⟨r₁, hsteps, hgo⟩ := h.split
  obtain ⟨hread, herror, hend⟩ := hgo.read
  refine ⟨r₁, hsteps, hread, ?_⟩
  cases item with
  | error e =>
      obtain ⟨hafter, he⟩ := herror e rfl
      exact ⟨hafter, eq_error_of_lexicalError? he⟩
  | ok t =>
      by_cases ht : t = .endOfInput
      · subst ht
        exact hend rfl
      · have hlt := (hr.steps hsteps).position_lt_read
          (by rw [hread]; exact fun heq => ht (Except.ok.inj heq))
        cases t with
        | endOfInput => exact absurd rfl ht
        | _ => exact hlt

/--
**Every rule stops within the input.** On whatever reader a session has come to, a call of a rule
makes at most one read for each byte in front of the cursor, and one more. Each of these takes
the cursor on, or fails and ends the rule, or comes to the end of input, where the rule ends.
-/
theorem stops_of_run {source : String} {calls : List Call} {answers : List Answer} {r : Reader}
    (h : (Session.start source).run calls = some (answers, .looking r)) :
    r.cursor.position ≤ source.utf8ByteSize
      ∧ ∀ rule ∈ [Rule.factor, Rule.term, Rule.expression], ∃ given, rule.MakesReads r given
        ∧ given.length ≤ source.utf8ByteSize - r.cursor.position + 1
        ∧ rule.Progresses r given := by
  have hr := Session.faithful_of_run h
  have hcursor := Session.standsIn_of_run h
  obtain ⟨hposition, hpending⟩ := hcursor.pending_le
  refine ⟨hposition, fun rule hrule => ?_⟩
  obtain ⟨given, hreads, hgo⟩ := Rule.exists_reads hrule hr
  refine ⟨given, hreads, ?_, Rule.progresses_of_goesOn hcursor hgo⟩
  have hremaining := hgo.remaining_eq hr
  have hle : r.remaining ≤ r.cursor.pending.length + 1 := by
    rw [Reader.remaining]
    split <;> omega
  omega

/-- A factor has failed at a text that is no token, and behind it an expression is read. -/
theorem stops_of_run_behind_error :
    ∃ answers r, (Session.start "2 ? * 3 / 0").run [.look, .factor] = some (answers, .looking r)
      ∧ r.current = .number (.integer 2) ∧ r.cursor.position = 3
      ∧ ∃ given, Rule.expression.MakesReads r given ∧ given.length = 5
        ∧ given.length ≤ "2 ? * 3 / 0".utf8ByteSize - 3 + 1
        ∧ Rule.expression.Progresses r given := by
  have hshown : ((Session.start "2 ? * 3 / 0").run [.look, .factor]).map
      (fun result => result.2.reader?.map fun r =>
        (r.current, r.cursor.position, (r.withReserve 0).cursor.pending.length,
          (Rule.expression.run (r.withReserve 0)).2.cursor.pending.length))
      = some (some (.number (.integer 2), 3, 5, 0)) := by
    decide +kernel
  obtain ⟨⟨answers, s⟩, hrun, hs⟩ := Option.map_eq_some_iff.mp hshown
  obtain ⟨r, hr, hvalues⟩ := Option.map_eq_some_iff.mp hs
  obtain rfl := Session.reader?_eq_some_iff.mp hr
  obtain ⟨hcurrent, hvalues⟩ := Prod.mk.inj hvalues
  obtain ⟨hposition, hvalues⟩ := Prod.mk.inj hvalues
  obtain ⟨hbefore, hafter⟩ := Prod.mk.inj hvalues
  obtain ⟨-, hrules⟩ := stops_of_run hrun
  obtain ⟨given, hreads, hle, hprogress⟩ := hrules Rule.expression (by simp)
  have hcount := hreads.count 0
  rw [hbefore, hafter] at hcount
  exact ⟨answers, r, hrun, hcurrent, hposition, given, hreads, hcount.symm, hposition ▸ hle,
    hprogress⟩

end Calculator
