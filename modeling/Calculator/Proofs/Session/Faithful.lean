import Calculator.Proofs.Expression.Items
import Calculator.Proofs.Session.Consistent

/-!
# A reader always looks at what stands at its span

The lemmas about the rules ask of the reader that it is `Faithful`: that it looks at the token
its span spells, and that what is pending can be looked at in its turn. **Whatever has been
called before, that holds**, also of a reader left behind by a call that has failed, whose cursor
has gone on without it. So each rule may be studied from any such reader as if it were the first
call of all.
-/

namespace Calculator

namespace Reader

/-- Reading on keeps a reader faithful. -/
theorem Faithful.steps {r r' : Reader} {given : List (Except Error Token)} (h : r.Faithful)
    (hsteps : r.Steps given r') : r'.Faithful := by
  induction hsteps with
  | refl r => exact h
  | step _ ih => exact ih h.advance

end Reader

/-- A cursor that is asked for the next token reads on, or is left alone. -/
theorem Cursor.mem_pending_next? {c : Cursor} {sp : Span} (h : sp ∈ c.next?.2.pending) :
    sp ∈ c.pending := by
  have htail : sp ∈ c.read.2.pending → sp ∈ c.pending := by
    rw [c.pending_read]
    exact List.mem_of_mem_tail
  unfold next? at h
  split at h
  · exact h
  · split at h <;> rename_i hread <;> rw [hread] at htail <;> exact htail h

namespace Session

/-- The reader that calls are made on. -/
def reader? : Session → Option Reader
  | looking r => some r
  | _ => none

theorem reader?_eq_some_iff {s : Session} {r : Reader} : s.reader? = some r ↔ s = looking r := by
  cases s <;> simp [reader?]

/-- What a session still has to read can be looked at, and what it looks at it has read. -/
def Faithful : Session → Prop
  | reading c => ∀ sp ∈ c.pending, Lexeme sp.text
  | looking r => r.Faithful
  | closed => True

theorem faithful_start (source : String) : (start source).Faithful :=
  fun _ hsp => lexeme_of_mem_spans hsp

/-- A call on a reader leaves a faithful reader, unless it is the last one. -/
theorem faithful_looking {r : Reader} {s' : Session} {c : Call} {a : Answer} (hr : r.Faithful)
    (h : (looking r).call c = some (a, s')) : s'.Faithful := by
  rcases closed_or_steps_of_call h with rfl | ⟨r', given, rfl, hsteps⟩
  · exact trivial
  · exact hr.steps hsteps

/-- **Every call keeps it.** -/
theorem faithful_call {s s' : Session} {c : Call} {a : Answer} (hs : s.Faithful)
    (h : s.call c = some (a, s')) : s'.Faithful := by
  cases s with
  | reading cur =>
      cases c with
      | read =>
          cases h
          intro sp hsp
          rw [cur.pending_read] at hsp
          exact hs sp (List.mem_of_mem_tail hsp)
      | next =>
          cases h
          exact fun sp hsp => hs sp (Cursor.mem_pending_next? hsp)
      | look =>
          rw [call, Reader.ofCursor] at h
          rcases hread : cur.read with ⟨e | t, cur'⟩ <;> rw [hread] at h <;> cases h
          · exact trivial
          · exact (Reader.looksAt_of_read hs hread).1
      | _ => cases h
  | looking r => exact faithful_looking hs h
  | closed => cases c <;> cases h

/-- **A reader that is reached is faithful**, by whatever calls and whichever of them failed. -/
theorem faithful_of_run {source : String} {calls : List Call} {answers : List Answer} {r : Reader}
    (h : (start source).run calls = some (answers, looking r)) : r.Faithful :=
  (invariant_run (P := fun _ => True) (fun hs hcall => ⟨trivial, faithful_call hs hcall⟩)
    (faithful_start source) h).2

end Session

end Calculator
