import Calculator.Proofs.Expression.Consume
import Calculator.Proofs.Expression.InStep

/-!
# How often a rule reads

Reading at the end of input takes nothing from a cursor. So a rule could read there any number
of times, and no one would see it in the reader that it leaves. To have the reads counted, the
cursor is given a *reserve* behind the source: spans without text, each of which reads as the end
of input. A rule gives the same with a reserve as without, and as long as some of the reserve is
left, each read takes one span. So **the spans that a rule takes, the reserve included, are its
reads**.

It turns out that a rule never reads at the end of input: it goes on only while it looks at
something else. Reading on in this way (`Reader.GoesOn`) takes one from what there is left to read
each time, and so there are as many reads as that goes down.
-/

namespace Calculator

/-- The cursor with `n` ends of input behind the source, to be read one after the other. -/
def Cursor.withReserve (n : Nat) (c : Cursor) : Cursor :=
  { c with pending := c.pending ++ List.replicate n ⟨c.size, []⟩ }

/-- The reader with a reserve: an end of input to come to, if it is not there, and `k` more. -/
def Reader.withReserve (k : Nat) (r : Reader) : Reader :=
  { r with cursor := r.cursor.withReserve (k + if r.current = .endOfInput then 0 else 1) }

/--
Called on the reader, the rule makes exactly these reads: however long the reserve, it takes as
many spans as they are, and what it gives and leaves is the same but for the reserve.
-/
structure Rule.MakesReads (rule : Rule) (r : Reader) (given : List (Except Error Token)) :
    Prop where
  steps : r.Steps given (rule.run r).2
  run_withReserve : ∀ k,
    rule.run (r.withReserve k) = ((rule.run r).1, (rule.run r).2.withReserve k)
  count : ∀ k, (r.withReserve k).cursor.pending.length
    = given.length + (rule.run (r.withReserve k)).2.cursor.pending.length

/--
From one reader to the other by reading on in front of the end of input, as long as that goes
well. `given` is what the reads gave, and `e` the error of the last one if it failed.
-/
inductive Reader.GoesOn : Reader → List (Except Error Token) → Option Error → Reader → Prop where
  | refl (r : Reader) : GoesOn r [] none r
  | fails {r r' : Reader} {e : Error} : r.current ≠ .endOfInput → r.advance = (.error e, r') →
      GoesOn r [.error e] (some e) r'
  | step {r r₁ r' : Reader} {given : List (Except Error Token)} {e : Option Error} :
      r.current ≠ .endOfInput → r.advance = (.ok (), r₁) → GoesOn r₁ given e r' →
      GoesOn r (.ok r₁.current :: given) e r'

/-! ## With a reserve -/

namespace Cursor

variable {c : Cursor} {n : Nat}

/-- What stands in the source is read as it is without a reserve. -/
theorem read_withReserve_of_ne_nil (h : c.pending ≠ []) :
    (c.withReserve n).read = (c.read.1, c.read.2.withReserve n) := by
  unfold read withReserve
  cases hp : c.pending with
  | nil => exact absurd hp h
  | cons sp pending => rfl

/-- At the end of the source, the first end of the reserve is read. -/
theorem read_withReserve_of_nil (h : c.pending = []) :
    (c.withReserve (n + 1)).read = (c.read.1, c.read.2.withReserve n) := by
  unfold read withReserve
  rw [h]
  rfl

/-- The end of input comes behind all that is pending. -/
theorem read_eq_end_iff (h : ∀ sp ∈ c.pending, Lexeme sp.text) :
    c.read.1 = .ok .endOfInput ↔ c.pending = [] := by
  rw [read]
  cases hp : c.pending with
  | nil => exact ⟨fun _ => rfl, fun _ => rfl⟩
  | cons sp pending =>
      have hsp : Lexeme sp.text := h sp (hp ▸ List.mem_cons_self)
      refine ⟨fun hend => ?_, nofun⟩
      exact absurd (Span.outcome_eq_ok_iff.mp hend) hsp.reading_ne_endOfInput

end Cursor

namespace Reader

section

variable {r r' : Reader} {outcome : Except Error Unit}

theorem length_pending_withReserve (k : Nat) (r : Reader) :
    (r.withReserve k).cursor.pending.length = r.remaining + k := by
  rw [withReserve, remaining, Cursor.withReserve]
  dsimp only
  rw [List.length_append, List.length_replicate]
  omega

theorem withReserve_of_end {k : Nat} (h : r.current = .endOfInput) :
    r.withReserve k = { r with cursor := r.cursor.withReserve k } := by
  rw [withReserve, if_pos h, Nat.add_zero]

theorem withReserve_of_ne_end {k : Nat} (h : r.current ≠ .endOfInput) :
    r.withReserve k = { r with cursor := r.cursor.withReserve (k + 1) } := by
  rw [withReserve, if_neg h]

/-- **In front of the end** a reader goes on in the same way with a reserve. -/
theorem advance_withReserve (k : Nat) (hr : r.Faithful) (hc : r.current ≠ .endOfInput)
    (h : r.advance = (outcome, r')) :
    (r.withReserve k).advance = (outcome, r'.withReserve k) := by
  have hend := Cursor.read_eq_end_iff hr.pending
  rcases hread : r.cursor.read with ⟨e | t, c⟩
  · have hne : r.cursor.pending ≠ [] := fun hnil => by simp [hread, hnil] at hend
    have hread' := Cursor.read_withReserve_of_ne_nil (n := k + 1) hne
    rw [hread] at hread'
    rw [advance_of_read_error hread] at h
    cases h
    rw [withReserve_of_ne_end hc]
    have hwith := withReserve_of_ne_end (k := k) (r := { r with cursor := c }) hc
    rw [hwith]
    exact advance_of_read_error hread'
  · rw [advance_of_read_ok hread] at h
    cases h
    rw [withReserve_of_ne_end hc]
    by_cases ht : t = .endOfInput
    · subst ht
      have hnil : r.cursor.pending = [] := hend.mp (by rw [hread])
      have hread' := Cursor.read_withReserve_of_nil (n := k) hnil
      rw [hread] at hread'
      rw [withReserve_of_end rfl]
      exact advance_of_read_ok hread'
    · have hne : r.cursor.pending ≠ [] := fun hnil => ht (by simpa [hread, hnil] using hend)
      have hread' := Cursor.read_withReserve_of_ne_nil (n := k + 1) hne
      rw [hread] at hread'
      rw [withReserve_of_ne_end ht]
      exact advance_of_read_ok hread'

/-- **So the rules give the same**, and leave the reserve but for an end that they came to. -/
theorem simulation_withReserve (k : Nat) :
    Simulation id fun r r' => r.Faithful ∧ r' = r.withReserve k where
  current_eq h := by rw [h.2, withReserve]
  span h := by
    rw [h.2, withReserve]
    exact ⟨rfl, rfl, rfl⟩
  advance := by
    rintro r _ r₁ outcome ⟨hr, rfl⟩ hc ha
    have hr₁ := hr.advance
    rw [ha] at hr₁
    refine ⟨_, ?_, hr₁, rfl⟩
    rw [advance_withReserve k hr hc ha]
    cases outcome <;> rfl

end

end Reader

theorem Rule.run_withReserve_of_simulated {rule : Rule} {k : Nat} {r : Reader} (hr : r.Faithful)
    (h : rule.Simulated id fun r r' => r.Faithful ∧ r' = r.withReserve k) :
    rule.run (r.withReserve k) = ((rule.run r).1, (rule.run r).2.withReserve k) := by
  obtain ⟨r', hrun, -, rfl⟩ := h ⟨hr, rfl⟩ rfl
  rw [hrun]
  cases (rule.run r).1 <;> rfl

/-! ## The reads -/

namespace Reader

variable {r r' : Reader} {given : List (Except Error Token)} {e : Option Error}

theorem GoesOn.trans {r₁ : Reader} {given' : List (Except Error Token)}
    (h : r.GoesOn given none r₁) (h' : r₁.GoesOn given' e r') :
    r.GoesOn (given ++ given') e r' := by
  generalize hnone : (none : Option Error) = last at h
  induction h with
  | refl => exact h'
  | fails => cases hnone
  | step hc ha _ ih => exact .step hc ha (ih h' hnone)

theorem read_of_advance_ok {r₁ : Reader} (h : r.advance = (.ok (), r₁)) :
    r.cursor.read.1 = .ok r₁.current := by
  rcases hread : r.cursor.read with ⟨e | t, c⟩
  · rw [advance_of_read_error hread] at h
    cases h
  · rw [advance_of_read_ok hread] at h
    cases h
    rfl

theorem read_of_advance_error {e : Error} (h : r.advance = (.error e, r')) :
    r.cursor.read.1 = .error e := by
  rcases hread : r.cursor.read with ⟨e | t, c⟩
  · rw [advance_of_read_error hread] at h
    cases h
    rfl
  · rw [advance_of_read_ok hread] at h
    cases h

theorem GoesOn.steps (h : r.GoesOn given e r') : r.Steps given r' := by
  induction h with
  | refl r => exact .refl r
  | @fails r r' e _ ha =>
      have hstep := Steps.step (.refl r.advance.2)
      rw [ha, read_of_advance_error ha] at hstep
      exact hstep
  | @step r r₁ r' given e _ ha _ ih =>
      have hstep := Steps.step (r := r) (by rw [ha]; exact ih)
      rw [read_of_advance_ok ha] at hstep
      exact hstep

/-- **Each read takes one** from what there is left to read. -/
theorem remaining_advance (hr : r.Faithful) (hc : r.current ≠ .endOfInput)
    {outcome : Except Error Unit} (h : r.advance = (outcome, r')) :
    r.remaining = r'.remaining + 1 := by
  have hpending : (r'.withReserve 0).cursor.pending = (r.withReserve 0).cursor.pending.tail := by
    rw [← Cursor.pending_read, ← cursor_advance, advance_withReserve 0 hr hc h]
  have hlength := congrArg List.length hpending
  rw [List.length_tail, length_pending_withReserve, length_pending_withReserve] at hlength
  have hpos : 0 < r.remaining := by
    rw [remaining, if_neg hc]
    exact Nat.succ_pos _
  omega

theorem GoesOn.remaining_eq (h : r.GoesOn given e r') (hr : r.Faithful) :
    r.remaining = given.length + r'.remaining := by
  induction h with
  | refl r => exact (Nat.zero_add _).symm
  | fails hc ha =>
      rw [remaining_advance hr hc ha, Nat.add_comm]
      rfl
  | @step r r₁ r' given e hc ha _ ih =>
      have hr₁ := hr.advance
      rw [ha] at hr₁
      rw [remaining_advance hr hc ha, ih hr₁, List.length_cons]
      omega

/-- At the end of input a rule does not go on. -/
theorem GoesOn.eq_of_end (h : r.GoesOn given e r') (hc : r.current = .endOfInput) :
    given = [] ∧ e = none ∧ r' = r := by
  cases h with
  | refl => exact ⟨rfl, rfl, rfl⟩
  | fails hne _ => exact absurd hc hne
  | step hne _ _ => exact absurd hc hne

/-- Between any two reads there is a reader that goes on. -/
theorem GoesOn.split {before after : List (Except Error Token)} {item : Except Error Token}
    (h : r.GoesOn (before ++ item :: after) e r') :
    ∃ r₁, r.Steps before r₁ ∧ r₁.GoesOn (item :: after) e r' := by
  induction before generalizing r with
  | nil => exact ⟨r, .refl r, h⟩
  | cons first before ih =>
      generalize hgiven : first :: before ++ item :: after = given at h
      cases h with
      | refl => cases hgiven
      | fails _ _ =>
          obtain ⟨-, hrest⟩ := List.cons.inj hgiven
          exact absurd hrest (by simp)
      | step _ ha hrest =>
          obtain ⟨rfl, rfl⟩ := List.cons.inj hgiven
          obtain ⟨r₁, hsteps, hgo⟩ := ih hrest
          have hstep := Steps.step (r := r) (by rw [ha]; exact hsteps)
          rw [read_of_advance_ok ha] at hstep
          exact ⟨r₁, hstep, hgo⟩

/-- **What one read leads to**: an error is the last, and so is the end of input. -/
theorem GoesOn.read {after : List (Except Error Token)} {item : Except Error Token}
    (h : r.GoesOn (item :: after) e r') :
    r.cursor.read.1 = item
      ∧ (∀ cause, item = .error cause → after = [] ∧ e = some cause)
      ∧ (item = .ok .endOfInput → after = [] ∧ r'.current = .endOfInput) := by
  cases h with
  | fails _ ha =>
      refine ⟨read_of_advance_error ha, fun cause hcause => ?_, nofun⟩
      cases hcause
      exact ⟨rfl, rfl⟩
  | step _ ha hrest =>
      refine ⟨read_of_advance_ok ha, nofun, fun hend => ?_⟩
      have hcurrent := Except.ok.inj hend
      obtain ⟨hafter, -, rfl⟩ := hrest.eq_of_end hcurrent
      exact ⟨hafter, hcurrent⟩

end Reader

/-! ## The rules -/

namespace Rule

/-- One read in front of the end is going on, and what goes well can be gone on with. -/
theorem traces_goesOn : Reader.Traces fun r e r' => ∃ given, r.GoesOn given e r' where
  refl r := ⟨[], .refl r⟩
  advance := by
    intro r r' outcome hc h
    cases outcome with
    | ok u => exact ⟨_, .step hc h (.refl r')⟩
    | error e =>
        have hlexical : lexicalError? (.error e : Except Error Unit) = some e :=
          Reader.lexicalError?_of_advance h
        rw [hlexical]
        exact ⟨_, .fails hc h⟩
  trans h h' := by
    obtain ⟨given, hgo⟩ := h
    obtain ⟨given', hgo'⟩ := h'
    exact ⟨given ++ given', hgo.trans hgo'⟩

/-- **A rule that only goes on makes as many reads** as there is less to read afterwards. -/
theorem exists_makesReads {rule : Rule} {r : Reader} (hr : r.Faithful)
    (hkeeps : rule.Keeps fun r e r' => ∃ given, r.GoesOn given e r')
    (hsimulated : ∀ k, rule.Simulated id fun r r' => r.Faithful ∧ r' = r.withReserve k) :
    ∃ given, rule.MakesReads r given
      ∧ r.GoesOn given (lexicalError? (rule.run r).1) (rule.run r).2 := by
  obtain ⟨given, hgo⟩ := hkeeps (r := r) rfl
  have hrun k := run_withReserve_of_simulated hr (hsimulated k)
  refine ⟨given, ⟨hgo.steps, hrun, fun k => ?_⟩, hgo⟩
  rw [hrun, Reader.length_pending_withReserve, Reader.length_pending_withReserve,
    hgo.remaining_eq hr, Nat.add_assoc]

/-- So it is with each of the three rules. -/
theorem exists_reads {rule : Rule} (hrule : rule ∈ [factor, term, expression]) {r : Reader}
    (hr : r.Faithful) :
    ∃ given, rule.MakesReads r given
      ∧ r.GoesOn given (lexicalError? (rule.run r).1) (rule.run r).2 := by
  simp only [List.mem_cons, List.not_mem_nil, or_false] at hrule
  rcases hrule with rfl | rfl | rfl
  · exact exists_makesReads hr (factor_keeps traces_goesOn)
      fun k => factor_simulated (Reader.simulation_withReserve k)
  · exact exists_makesReads hr (term_keeps traces_goesOn)
      fun k => term_simulated (Reader.simulation_withReserve k)
  · exact exists_makesReads hr (expression_keeps traces_goesOn)
      fun k => expression_simulated (Reader.simulation_withReserve k)

end Rule

end Calculator
