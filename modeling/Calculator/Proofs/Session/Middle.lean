import Calculator.Proofs.Evaluate.Blanks
import Calculator.Proofs.Session.Finite
import Calculator.Proofs.Source.Tiling

/-!
# A reader set on in the middle

A reader may be set on a cursor that has gone some way, has met errors and has come to its
end. None of that is remembered: **all that matters is where the cursor stands**. The reader
does what a reader on the rest of the source would do, call by call, and its errors stand
where those of the other do, moved by what the cursor has read.

`Cursor.Between` says where a cursor stands, and reading in either way keeps it. From there
on the two sessions are in step: `Session.InStep` is kept by every call that can be made on a
reader, so the two show the same.
-/

namespace Calculator

/-! ## What is to be seen of a session -/

/-- The same answer, its error in another place. -/
def Answer.moved (f : Nat → Nat) : Answer → Answer
  | token outcome => token (outcome.mapError (Error.moved f))
  | given outcome => given (outcome.map (Except.mapError (Error.moved f)))
  | done outcome => done (outcome.mapError (Error.moved f))
  | value outcome => value (outcome.mapError (Error.moved f))

/-- Behind each of the calls, what came back and what is looked at then. -/
def Session.trace : Session → List Call → Option (List (Answer × Option Token))
  | _, [] => some []
  | s, c :: cs =>
    match s.call c with
    | none => none
    | some (answer, s') => (s'.trace cs).map fun shown => (answer, s'.current?) :: shown

/-- What is to be seen, with the errors in other places. -/
def movedTrace (f : Nat → Nat) (shown : List (Answer × Option Token)) :
    List (Answer × Option Token) :=
  shown.map fun (answer, current) => (answer.moved f, current)

/-! ## Where the cursor of a session stands -/

section

variable {c : Cursor} {front back : List Char}

theorem Cursor.Between.read (h : c.Between front back) :
    ∃ front' back', front' ++ back' = front ++ back ∧ c.read.2.Between front' back' := by
  have htook := h.took
  refine ⟨_, _, ?_, htook.between⟩
  conv_rhs => rw [htook.back_eq]
  simp only [List.append_assoc]

/-- Going through the tokens is reading, or else nothing happens. -/
theorem Cursor.Between.next? (h : c.Between front back) :
    ∃ front' back', front' ++ back' = front ++ back ∧ c.next?.2.Between front' back' := by
  obtain ⟨front', back', heq, hread⟩ := h.read
  unfold Cursor.next?
  split
  · exact ⟨front, back, rfl, h⟩
  · -- the mark that the end has come is not looked at
    refine ⟨front', back', heq, ?_⟩
    split <;> rename_i hc <;> rw [hc] at hread
    · exact ⟨hread.position_eq, hread.pending_eq, hread.size_eq, hread.apart⟩
    · exact hread
    · exact ⟨hread.position_eq, hread.pending_eq, hread.size_eq, hread.apart⟩

/-- **A cursor in the middle is in step with one in front of the rest.** -/
theorem Cursor.Between.inStep (h : c.Between front back) :
    (Cursor.ofSource (String.ofList back)).InStep (· + c.position) c := by
  rw [h.position_eq]
  refine ⟨?_, ?_⟩
  · have hmoved := forall₂_alike_moved (· + byteSize front) (spansFrom 0 back)
    rw [← spansFrom_add, Nat.zero_add] at hmoved
    rw [h.pending_eq, Cursor.ofSource, spans, String.toList_ofList]
    exact hmoved
  · rw [h.size_eq, byteSize_append, Cursor.ofSource, ← byteSize_toList, String.toList_ofList]
    exact Nat.add_comm _ _

end

/-- As long as a session has a cursor, that stands somewhere in the source. -/
def Session.StandsIn (source : String) : Session → Prop
  | reading c => ∃ front back, front ++ back = source.toList ∧ c.Between front back
  | _ => True

theorem Session.standsIn_call {source : String} {s s' : Session} {c : Call} {a : Answer}
    (hs : s.StandsIn source) (h : s.call c = some (a, s')) : s'.StandsIn source := by
  unfold call at h
  split at h
  case h_1 c =>
    cases h
    obtain ⟨front, back, heq, hc⟩ := hs
    obtain ⟨front', back', heq', hc'⟩ := hc.read
    exact ⟨front', back', heq'.trans heq, hc'⟩
  case h_2 c =>
    cases h
    obtain ⟨front, back, heq, hc⟩ := hs
    obtain ⟨front', back', heq', hc'⟩ := hc.next?
    exact ⟨front', back', heq'.trans heq, hc'⟩
  case h_3 => split at h <;> cases h <;> trivial
  case h_9 => cases h
  all_goals cases h; trivial

/-- Going on with a cursor, in either way, always gives a cursor again. -/
theorem Session.run_reading {calls : List Call} (h : ∀ call ∈ calls, call = .read ∨ call = .next)
    (c : Cursor) : ∃ answers c', (reading c).run calls = some (answers, reading c') := by
  induction calls generalizing c with
  | nil => exact ⟨[], c, rfl⟩
  | cons call calls ih =>
      obtain ⟨hcall, hcalls⟩ := List.forall_mem_cons.mp h
      rcases hcall with rfl | rfl
      · obtain ⟨answers, c', hrun⟩ := ih hcalls c.read.2
        exact ⟨_, c', run_cons rfl hrun⟩
      · obtain ⟨answers, c', hrun⟩ := ih hcalls c.next?.2
        exact ⟨_, c', run_cons rfl hrun⟩

/-! ## Sessions in step -/

/-- Both have a reader, the one in step with the other, or neither has anything. -/
inductive Session.InStep (f : Nat → Nat) : Session → Session → Prop where
  | looking {r r' : Reader} (h : r.InStep f r') : InStep f (looking r) (looking r')
  | closed : InStep f closed closed

section

variable {f : Nat → Nat}

theorem Reader.InStep.consume {r r' r₁ : Reader} {outcome : Except Error Unit}
    (h : r.InStep f r') (expected : Token) (hc : r.consume expected = (outcome, r₁)) :
    ∃ r₁', r'.consume expected = (outcome.mapError (Error.moved f), r₁') ∧ r₁.InStep f r₁' := by
  unfold Reader.consume at hc ⊢
  rw [h.current_eq, h.span.start_eq]
  split at hc
  · rename_i hsame
    rw [if_pos hsame]
    exact h.advance hc
  · rename_i hsame
    cases hc
    rw [if_neg hsame]
    exact ⟨r', rfl, h⟩

/-- Either call gives its answer, the one moved, and leaves the sessions in step. -/
def Session.SameCall (f : Nat → Nat) (given given' : Option (Answer × Session)) : Prop :=
  (given = none ∧ given' = none)
    ∨ ∃ a s s', given = some (a, s) ∧ given' = some (a.moved f, s') ∧ s.InStep f s'

namespace Session

/-- Both look at the same token. -/
theorem InStep.current?_eq {s s' : Session} (h : s.InStep f s') : s'.current? = s.current? := by
  cases h with
  | looking h => exact congrArg some h.current_eq
  | closed => rfl

theorem sameCall_ofRule {rule : Rule} (hrule : rule.KeepsStep f) {r r' : Reader}
    (h : r.InStep f r') : SameCall f (some (ofRule rule r)) (some (ofRule rule r')) := by
  obtain ⟨r₁', hrun, h₁⟩ := hrule h rfl
  refine .inr ⟨_, _, _, rfl, ?_, .looking h₁⟩
  rw [Session.ofRule, hrun]
  rfl

/-- **Every call on a reader keeps in step.** -/
theorem InStep.call {s s' : Session} (h : s.InStep f s') (c : Call) :
    SameCall f (s.call c) (s'.call c) := by
  cases h with
  | closed => exact .inl ⟨rfl, rfl⟩
  | looking h =>
      cases c with
      | read => exact .inl ⟨rfl, rfl⟩
      | next => exact .inl ⟨rfl, rfl⟩
      | look => exact .inl ⟨rfl, rfl⟩
      | consume expected =>
          obtain ⟨r₁', hconsume, h₁⟩ := h.consume expected rfl
          refine .inr ⟨_, _, _, rfl, ?_, .looking h₁⟩
          rw [Session.call, hconsume]
          rfl
      | factor => exact sameCall_ofRule Rule.factor_keepsStep h
      | term => exact sameCall_ofRule Rule.term_keepsStep h
      | expression => exact sameCall_ofRule Rule.expression_keepsStep h
      | whole =>
          refine .inr ⟨_, _, _, rfl, ?_, .closed⟩
          rw [Session.call, h.whole]
          rfl

/-- Setting readers on cursors in step gives sessions in step, or the same error. -/
theorem sameCall_look {c c' : Cursor} (h : c.InStep f c') :
    SameCall f ((reading c).call .look) ((reading c').call .look) := by
  rcases Reader.ofCursor_inStep h with ⟨r, r', hr, hr', hstep⟩ | ⟨e, he, he'⟩
  · refine .inr ⟨.token (.ok r.current), looking r, looking r', ?_, ?_, .looking hstep⟩
    · rw [Session.call, hr]
    · rw [Session.call, hr']
      dsimp only
      rw [hstep.current_eq]
      rfl
  · refine .inr ⟨.token (.error e), closed, closed, ?_, ?_, .closed⟩
    · rw [Session.call, he]
    · rw [Session.call, he']
      rfl

/-- What is to be seen of one call, and then of those behind it. -/
theorem SameCall.trace {s s' : Session} {c : Call} {cs : List Call}
    (h : SameCall f (s.call c) (s'.call c))
    (hrest : ∀ {t t' : Session}, t.InStep f t' → t'.trace cs = (t.trace cs).map (movedTrace f)) :
    s'.trace (c :: cs) = (s.trace (c :: cs)).map (movedTrace f) := by
  unfold Session.trace
  rcases h with ⟨hnone, hnone'⟩ | ⟨a, t, t', hcall, hcall', hstep⟩
  · rw [hnone, hnone']
    rfl
  · rw [hcall, hcall']
    dsimp only
    rw [hrest hstep, hstep.current?_eq, Option.map_map, Option.map_map]
    rfl

/-- **Sessions in step show the same**, the errors of one being moved. -/
theorem InStep.trace {s s' : Session} (h : s.InStep f s') (calls : List Call) :
    s'.trace calls = (s.trace calls).map (movedTrace f) := by
  induction calls generalizing s s' with
  | nil => rfl
  | cons c cs ih => exact SameCall.trace (h.call c) ih

end Session

end

/-! ## In the middle -/

/--
**A reader set on in the middle is a reader of the rest.** However a cursor has got where it
stands, it has read a part of the source, and whatever is called from there on shows the same
as it does on what is left, the errors being moved by the size of that part.
-/
theorem trace_of_middle {source : String} {calls : List Call}
    (h : ∀ call ∈ calls, call = .read ∨ call = .next) :
    ∃ answers c front back,
      (Session.start source).run calls = some (answers, .reading c)
        ∧ source = front ++ back ∧ front.utf8ByteSize = c.position
        ∧ ∀ further, (Session.reading c).trace (.look :: further)
            = ((Session.start back).trace (.look :: further)).map
                (movedTrace (· + c.position)) := by
  obtain ⟨answers, c, hrun⟩ := Session.run_reading h (Cursor.ofSource source)
  have hstart : (Session.start source).StandsIn source :=
    ⟨[], source.toList, rfl, Cursor.between_ofSource source⟩
  obtain ⟨-, front, back, heq, hc⟩ :=
    Session.invariant_run (P := fun _ => True)
      (fun hs hcall => ⟨trivial, Session.standsIn_call hs hcall⟩) hstart hrun
  have hsource : source = String.ofList front ++ String.ofList back := by
    rw [← String.ofList_append, heq, String.ofList_toList]
  refine ⟨answers, c, String.ofList front, String.ofList back, hrun, hsource, ?_, ?_⟩
  · rw [hc.position_eq, ← byteSize_toList, String.toList_ofList]
  · exact fun further => (Session.sameCall_look hc.inStep).trace fun hs => hs.trace further

/-- Behind an error, and behind the end that comes of it, errors point into the whole source. -/
theorem trace_of_middle_behind_error :
    (∀ call ∈ [Call.read, .next, .next], call = .read ∨ call = .next)
      ∧ ∃ answers c front back,
        (Session.start "1 ?2 / 0").run [.read, .next, .next] = some (answers, .reading c)
          ∧ answers.map Answer.error? = [none, some ⟨.invalidCharacter '?', 2⟩, none]
          ∧ "1 ?2 / 0" = front ++ back ∧ front.utf8ByteSize = 3
          ∧ ((Session.reading c).trace [.look, .term, .consume .plus]).map
              (List.map fun (answer, current) => (answer.error?, current))
            = some [(none, some (.number (.integer 2))),
                (some ⟨.divisionByZero, 7⟩, some .endOfInput),
                (some ⟨.unexpectedToken .plus .endOfInput, 8⟩, some .endOfInput)]
          ∧ (Session.reading c).trace [.look, .term, .consume .plus]
            = ((Session.start back).trace [.look, .term, .consume .plus]).map
                (movedTrace (· + 3)) := by
  have h : ∀ call ∈ [Call.read, .next, .next], call = .read ∨ call = .next := by simp
  obtain ⟨answers, c, front, back, hrun, hsource, hsize, htrace⟩ :=
    @trace_of_middle "1 ?2 / 0" _ h
  cases hrun.symm.trans rfl
  have hposition : (Cursor.ofSource "1 ?2 / 0").read.2.next?.2.next?.2.position = 3 := by
    decide +kernel
  rw [hposition] at hsize htrace
  exact ⟨h, _, _, front, back, hrun, by decide +kernel, hsource, hsize, by decide +kernel,
    htrace _⟩

end Calculator
