import Calculator.Expression.Rule
import Calculator.Proofs.Source.Lexeme

/-!
# What a reader has in front of it

A reader keeps a token, the span where it stands and a cursor behind it. `items` lines
these up: the span that is looked at, the spans that are pending and the end of input,
as one list. What a rule does depends on that list alone, and everything that is said
about rules is said in terms of it.

* `Passes` is a stretch of reading that went well: what was read stood in front, and what
  stands there now is the rest.
* `Halts` is one that did not: behind what was read stands a span that could not be read,
  or that was not wanted.

Both can be put behind a stretch that went well, which is how a rule is followed through
its calls.
-/

namespace Calculator

/-- The spans that a cursor has not yet read, and the end of input. -/
def Cursor.items (c : Cursor) : List Span := c.pending ++ [⟨c.size, []⟩]

/-- The spans of a source and the end of input. -/
def items (source : String) : List Span := (Cursor.ofSource source).items

theorem items_eq (source : String) : items source = spans source ++ [⟨source.utf8ByteSize, []⟩] :=
  rfl

namespace Reader

/-- The spans from the one that is looked at up to the end of input. -/
def items (r : Reader) : List Span :=
  r.span :: if r.current = .endOfInput then [] else r.cursor.items

/-- A reader looks at what stands at its span. -/
structure Faithful (r : Reader) : Prop where
  lexeme : r.span.text = [] ∨ Lexeme r.span.text
  reading : reading r.span.text = .ok r.current
  /-- What is pending can be looked at in its turn. -/
  pending : ∀ sp ∈ r.cursor.pending, Lexeme sp.text

theorem Faithful.spells {r : Reader} (h : r.Faithful) : Spells r.span.text r.current :=
  spells_of_reading h.lexeme h.reading

/-- There is one token that a reader at this span can look at. -/
theorem Faithful.current_eq {r : Reader} (h : r.Faithful) {t : Token}
    (ht : Calculator.reading r.span.text = .ok t) : r.current = t :=
  Except.ok.inj (h.reading.symm.trans ht)

theorem Faithful.reads {r : Reader} (h : r.Faithful) : r.span.Reads :=
  ⟨r.current, Span.outcome_eq_ok_iff.mpr h.reading⟩

/-- Reading past `read` went well and led from one reader to the other. -/
structure Passes (r r' : Reader) (read : List Span) : Prop where
  faithful : r'.Faithful
  items_eq : r.items = read ++ r'.items
  reads : ∀ sp ∈ read, sp.Reads

/-- Behind `read` it did not go on at `bad`. Where `bad` is a token, the reader looks at it. -/
structure Halts (r r' : Reader) (read : List Span) (bad : Span) : Prop where
  faithful : r'.Faithful
  items_eq : ∃ rest, r.items = read ++ bad :: rest ∧ (bad.Reads → r'.items = bad :: rest)
  reads : ∀ sp ∈ read, sp.Reads

theorem Passes.refl {r : Reader} (h : r.Faithful) : r.Passes r [] := ⟨h, rfl, by simp⟩

theorem Passes.trans {r r₁ r₂ : Reader} {as bs : List Span} (h₁ : r.Passes r₁ as)
    (h₂ : r₁.Passes r₂ bs) : r.Passes r₂ (as ++ bs) where
  faithful := h₂.faithful
  items_eq := by rw [h₁.items_eq, h₂.items_eq, List.append_assoc]
  reads := List.forall_mem_append.mpr ⟨h₁.reads, h₂.reads⟩

theorem Passes.trans_halts {r r₁ r₂ : Reader} {as bs : List Span} {bad : Span}
    (h₁ : r.Passes r₁ as) (h₂ : r₁.Halts r₂ bs bad) : r.Halts r₂ (as ++ bs) bad where
  faithful := h₂.faithful
  items_eq := by
    obtain ⟨rest, hrest, hlook⟩ := h₂.items_eq
    exact ⟨rest, by rw [h₁.items_eq, hrest, List.append_assoc], hlook⟩
  reads := List.forall_mem_append.mpr ⟨h₁.reads, h₂.reads⟩

/-- What went well can be stopped for another reason, at the span that is looked at. -/
theorem Passes.halts {r r' : Reader} {read : List Span} (h : r.Passes r' read) :
    r.Halts r' read r'.span where
  faithful := h.faithful
  items_eq := ⟨_, h.items_eq, fun _ => rfl⟩
  reads := h.reads

/-! ## One span after the other -/

/-- A cursor that gives a token gives the one at its first item. -/
theorem looksAt_of_read {c c' : Cursor} {t : Token} (hc : ∀ sp ∈ c.pending, Lexeme sp.text)
    (h : c.read = (.ok t, c')) :
    Faithful ⟨c', t, c'.span⟩ ∧ items ⟨c', t, c'.span⟩ = c.items := by
  unfold Cursor.read at h
  cases hp : c.pending with
  | nil =>
      rw [hp] at h
      cases h
      exact ⟨⟨.inl rfl, rfl, by simp⟩, by simp [items, Cursor.items, hp]⟩
  | cons sp pending =>
      rw [hp] at h
      injection h with ht hc'
      subst hc'
      have hsp : Lexeme sp.text := hc sp (by rw [hp]; exact List.mem_cons_self)
      have hreading : Calculator.reading sp.text = .ok t := Span.outcome_eq_ok_iff.mp ht
      -- so this is not the end, and there are items behind this one
      have hne : t ≠ .endOfInput := fun hend => hsp.reading_ne_endOfInput (hend ▸ hreading)
      refine ⟨⟨.inr hsp, hreading, fun s hs => hc s ?_⟩, ?_⟩
      · rw [hp]
        exact List.mem_cons_of_mem sp hs
      · simp [items, Cursor.items, hp, hne]

/-- A cursor that gives an error has moved past its first item. -/
theorem bad_of_read {c c' : Cursor} {e : Error} (h : c.read = (.error e, c')) :
    ∃ bad, c.pending = bad :: c'.pending ∧ c'.size = c.size ∧ bad.outcome = .error e := by
  unfold Cursor.read at h
  cases hp : c.pending with
  | nil =>
      rw [hp] at h
      cases h
  | cons sp pending =>
      rw [hp] at h
      injection h with he hc'
      subst hc'
      exact ⟨sp, rfl, rfl, he⟩

/-- **Every read keeps a reader faithful**, one that fails as well. -/
theorem Faithful.advance {r : Reader} (h : r.Faithful) : r.advance.2.Faithful := by
  unfold Reader.advance
  rcases hread : r.cursor.read with ⟨e | t, c⟩
  · obtain ⟨bad, hpending, _, _⟩ := bad_of_read hread
    refine ⟨h.lexeme, h.reading, fun sp hsp => h.pending sp ?_⟩
    rw [hpending]
    exact List.mem_cons_of_mem bad hsp
  · exact (looksAt_of_read h.pending hread).1

theorem advance_passes {r r' : Reader} (hr : r.Faithful) (hc : r.current ≠ .endOfInput)
    (h : r.advance = (.ok (), r')) : r.Passes r' [r.span] := by
  unfold advance at h
  split at h
  · rename_i t c hread
    injection h with _ h
    subst h
    obtain ⟨hfaithful, hitems⟩ := looksAt_of_read hr.pending hread
    refine ⟨hfaithful, ?_, by simpa using hr.reads⟩
    rw [hitems, items, if_neg hc, List.singleton_append]
  · cases h

theorem advance_halts {r r' : Reader} {e : Error} (hr : r.Faithful) (hc : r.current ≠ .endOfInput)
    (h : r.advance = (.error e, r')) :
    ∃ bad, r.Halts r' [r.span] bad ∧ bad.outcome = .error e := by
  unfold advance at h
  split at h
  · cases h
  · rename_i c hread
    injection h with he h
    injection he with he
    subst he
    subst h
    obtain ⟨bad, hpending, hsize, hbad⟩ := bad_of_read hread
    refine ⟨bad, ⟨⟨hr.lexeme, hr.reading, fun sp hsp => hr.pending sp ?_⟩, ⟨c.items, ?_, ?_⟩, ?_⟩,
      hbad⟩
    · rw [hpending]
      exact List.mem_cons_of_mem bad hsp
    · rw [items, if_neg hc, Cursor.items, Cursor.items, hpending, hsize]
      rfl
    · exact fun hreads => absurd hreads (Span.not_reads_of_error hbad)
    · simpa using hr.reads

/-- With two items in front of it a reader is not at the end. -/
theorem ne_endOfInput_of_items {r : Reader} {sp next : Span} {rest : List Span}
    (h : r.items = sp :: next :: rest) : r.current ≠ .endOfInput := by
  intro hend
  rw [items, if_pos hend] at h
  cases (List.cons.inj h).2

/-- Where the next item can be read, the reader gets there. -/
theorem exists_advance {r : Reader} (hr : r.Faithful) {sp next : Span} {rest : List Span}
    (h : r.items = sp :: next :: rest) (hnext : next.Reads) :
    ∃ r₁, r.advance = (.ok (), r₁) ∧ r.Passes r₁ [sp] ∧ r₁.items = next :: rest := by
  have hsp : r.span = sp := (List.cons.inj h).1
  have hc := ne_endOfInput_of_items h
  rcases ha : r.advance with ⟨e | u, r₁⟩
  · obtain ⟨bad, hhalts, hbad⟩ := advance_halts hr hc ha
    obtain ⟨rest', hitems, _⟩ := hhalts.items_eq
    rw [h] at hitems
    obtain rfl : next = bad := (List.cons.inj (List.cons.inj hitems).2).1
    exact absurd hnext (Span.not_reads_of_error hbad)
  · have hpass := advance_passes hr hc ha
    have hitems := hpass.items_eq
    rw [h, hsp] at hitems
    exact ⟨r₁, rfl, hsp ▸ hpass, (List.cons.inj hitems).2.symm⟩

/-- And where it cannot, the error is what there is to say of it. -/
theorem exists_advance_error {r : Reader} (hr : r.Faithful) {sp bad : Span} {rest : List Span}
    {e : Error} (h : r.items = sp :: bad :: rest) (hbad : bad.outcome = .error e) :
    ∃ r₁, r.advance = (.error e, r₁) := by
  have hc := ne_endOfInput_of_items h
  rcases ha : r.advance with ⟨e' | u, r₁⟩
  · obtain ⟨bad', hhalts, hbad'⟩ := advance_halts hr hc ha
    obtain ⟨rest', hitems, _⟩ := hhalts.items_eq
    rw [h] at hitems
    obtain rfl : bad = bad' := (List.cons.inj (List.cons.inj hitems).2).1
    cases hbad.symm.trans hbad'
    exact ⟨r₁, rfl⟩
  · have hpass := advance_passes hr hc ha
    have hitems := hpass.items_eq
    rw [h] at hitems
    obtain rfl : bad = r₁.span := (List.cons.inj (List.cons.inj hitems).2).1
    exact absurd hpass.faithful.reads (Span.not_reads_of_error hbad)

theorem ofSource_ok {source : String} {r : Reader} (h : ofSource source = .ok r) :
    r.Faithful ∧ r.items = Calculator.items source := by
  unfold ofSource ofCursor at h
  split at h
  · rename_i t c hread
    cases h
    exact looksAt_of_read (fun sp hsp => lexeme_of_mem_spans hsp) hread
  · cases h

theorem ofSource_error {source : String} {e : Error} (h : ofSource source = .error e) :
    ∃ bad rest, Calculator.items source = bad :: rest ∧ bad.outcome = .error e := by
  unfold ofSource ofCursor at h
  split at h
  · cases h
  · rename_i c hread
    cases h
    obtain ⟨bad, hpending, _, hbad⟩ := bad_of_read hread
    exact ⟨bad, _, by rw [Calculator.items, Cursor.items, hpending, List.cons_append], hbad⟩

end Reader

end Calculator
