import Calculator.Proofs.Evaluate.Blanks

/-!
# The tokens of two texts put together

Where no run of digits goes across, **the tokens of two texts put together are those of the one
and then those of the other**, and so it is with their errors: the first text is read as if it
stood alone, and the second one as well, only further on. An error in the first text comes
before everything in the second.

The tokens are taken span by span here. A cursor that is asked for one token after the other
stops at the first error instead, and this comes to the same.
-/

namespace Calculator

/-! ## The tokens that a cursor gives -/

namespace Cursor

theorem givenFrom_eq (given : List (Except Error Token)) (c : Cursor) :
    c.givenFrom given =
      match c.next? with
      | (none, c') => (given, c')
      | (some outcome, c') => c'.givenFrom (outcome :: given) := by
  rw [givenFrom]
  split <;> rename_i h <;> rw [h]

/-- **What `next?` gives one after the other** are the tokens up to the first error. -/
theorem exists_givenFrom {pending : List Span} (hpending : ∀ sp ∈ pending, Lexeme sp.text)
    {c : Cursor} (hx : c.exhausted = false) (hp : c.pending = pending)
    (given : List (Except Error Token)) :
    ∃ outcomes : List (Except Error Token), (c.givenFrom given).1 = outcomes.reverse ++ given
      ∧ outcomes.mapM id = pending.mapM Span.outcome := by
  induction pending generalizing c given with
  | nil =>
      have hnext : c.next? = (none, { c with span := ⟨c.size, []⟩, exhausted := true }) := by
        simp [next?, read, hx, hp]
      refine ⟨[], ?_, rfl⟩
      rw [givenFrom_eq, hnext]
      rfl
  | cons sp pending ih =>
      obtain ⟨hsp, hrest⟩ := List.forall_mem_cons.mp hpending
      cases hout : sp.outcome with
      | ok t =>
          -- it is not the end, so the cursor goes on
          have hne : t ≠ .endOfInput := fun hend =>
            hsp.reading_ne_endOfInput (hend ▸ Span.outcome_eq_ok_iff.mp hout)
          have hnext : c.next? = (some (.ok t), { c with span := sp, pending }) := by
            simp [next?, read, hx, hp, hout]
          obtain ⟨outcomes, hgiven, hmapM⟩ :=
            ih hrest (c := { c with span := sp, pending }) hx rfl (.ok t :: given)
          refine ⟨.ok t :: outcomes, ?_, ?_⟩
          · rw [givenFrom_eq, hnext]
            dsimp only
            rw [hgiven]
            simp
          · rw [List.mapM_cons, List.mapM_cons, hmapM, hout, id_eq]
      | error e =>
          have hnext : c.next?
              = (some (.error e), { c with span := sp, pending, exhausted := true }) := by
            simp [next?, read, hx, hp, hout]
          refine ⟨[.error e], ?_, ?_⟩
          · rw [givenFrom_eq, hnext]
            dsimp only
            rw [givenFrom_eq, next?, if_pos rfl]
            rfl
          · rw [List.mapM_cons, List.mapM_cons, hout]
            rfl

end Cursor

/-- **The tokens of a source are those that a cursor gives**, one after the other, and the error
is the one at which it stops. -/
theorem tokenize_eq_collect (source : String) :
    tokenize source = (Cursor.ofSource source).collect.1.mapM id := by
  obtain ⟨outcomes, hgiven, hmapM⟩ :=
    Cursor.exists_givenFrom (fun _ hsp => lexeme_of_mem_spans hsp)
      (c := Cursor.ofSource source) rfl rfl []
  rw [Cursor.collect]
  dsimp only
  rw [hgiven, List.append_nil, List.reverse_reverse, hmapM]
  rfl

/-! ## Texts put together -/

/-- A text that stands further on has the same tokens, or the same error further on. -/
theorem mapM_outcome_spansFrom (start size : Nat) (chars : List Char) :
    (spansFrom (start + size) chars).mapM Span.outcome
      = ((spansFrom start chars).mapM Span.outcome).mapError (Error.moved (· + size)) := by
  rw [spansFrom_add]
  exact mapM_outcome_alike (forall₂_alike_moved _ _)

/-- **The tokens of the second text follow those of the first**, if there are any. -/
theorem tokenize_append_eq {front back : String} (h : Apart front.toList back.toList) :
    tokenize (front ++ back) = (do
      let before ← tokenize front
      let behind ← (tokenize back).mapError (Error.moved (· + front.utf8ByteSize))
      return before ++ behind) := by
  unfold tokenize spans
  rw [String.toList_append, spansFrom_append h, List.mapM_append, mapM_outcome_spansFrom,
    ← byteSize_toList]

/--
**Two texts put together** are read one after the other: an error in the first comes first, and
one in the second is placed behind all the bytes of the first.
-/
theorem tokenize_append {front back : String} (h : Apart front.toList back.toList) :
    (∀ e, tokenize front = .error e → tokenize (front ++ back) = .error e)
      ∧ (∀ ts us, tokenize front = .ok ts → tokenize back = .ok us →
        tokenize (front ++ back) = .ok (ts ++ us))
      ∧ (∀ ts e, tokenize front = .ok ts → tokenize back = .error e →
        tokenize (front ++ back) = .error ⟨e.cause, e.position + front.utf8ByteSize⟩) := by
  have happend := tokenize_append_eq h
  refine ⟨fun e he => ?_, fun ts us hts hus => ?_, fun ts e hts he => ?_⟩
  · rw [happend, he]
    rfl
  · rw [happend, hts, hus]
    rfl
  · rw [happend, hts, he]
    rfl

/-- A character that means nothing, behind five bytes and two of its own text. -/
theorem tokenize_append_unreadable :
    Apart "12\u2003".toList "3 ×".toList
      ∧ tokenize "12\u2003" = .ok [.number (.integer 12)]
      ∧ tokenize "3 ×" = .error ⟨.invalidCharacter '×', 2⟩
      ∧ tokenize ("12\u2003" ++ "3 ×") = .error ⟨.invalidCharacter '×', 7⟩ := by
  have hapart : Apart "12\u2003".toList "3 ×".toList := by
    simp [Apart]
  have hfront : tokenize "12\u2003" = .ok [.number (.integer 12)] := by decide +kernel
  have hback : tokenize "3 ×" = .error ⟨.invalidCharacter '×', 2⟩ := by decide +kernel
  exact ⟨hapart, hfront, hback, (tokenize_append hapart).2.2 _ _ hfront hback⟩

end Calculator
